import Script.Tree
/-!
# The tree without positions

What a node means does not depend on where it stands. Two nodes mean the same if they are equal as
soon as all positions in them are forgotten.
-/

namespace Script

namespace Reference

def unplaced (r : Reference) : Reference := { r with position := {} }

end Reference

namespace Literal

def unplaced (l : Literal) : Literal := { l with position := {} }

end Literal

namespace Parameter

def unplaced (p : Parameter) : Parameter := { p with position := {} }

end Parameter

mutual

def Value.unplaced : Value → Value
  | .call node => .call (Call.unplaced node)
  | .reference node => .reference node.unplaced
  | .literal node => .literal node.unplaced
termination_by structural value => value

def Call.unplaced : Call Value → Call Value
  | ⟨name, internal, arguments, _⟩ => ⟨name, internal, Value.listUnplaced arguments, {}⟩
termination_by structural node => node

def Value.listUnplaced : List Value → List Value
  | [] => []
  | value :: values => value.unplaced :: Value.listUnplaced values
termination_by structural values => values

end

namespace Assignment

def unplaced (a : Assignment) : Assignment := ⟨a.name, a.value.unplaced, {}⟩

end Assignment

mutual

def Element.unplaced : Element → Element
  | .declaration node => .declaration (Declaration.unplaced node)
  | .assignment node => .assignment node.unplaced
  | .value node => .value node.unplaced
  | .statement node => .statement (Statement.unplaced node)
termination_by structural element => element

def Declaration.unplaced : Declaration Element → Declaration Element
  | ⟨name, exported, _, binding⟩ => ⟨name, exported, {}, Binding.unplaced binding⟩
termination_by structural node => node

def Binding.unplaced : Binding Element → Binding Element
  | .function function => .function (Function.unplaced function)
  | .constant type value => .constant type value.unplaced
  | .variable type value? => .variable type (value?.map Value.unplaced)
termination_by structural binding => binding

def Function.unplaced : Function Element → Function Element
  | ⟨returnType, parameters, body⟩ =>
    ⟨returnType, parameters.map Parameter.unplaced, Element.listUnplaced body⟩
termination_by structural function => function

def ForHeader.unplaced : ForHeader Element → ForHeader Element
  | ⟨initial, condition, repeated⟩ => ⟨initial.unplaced, condition.unplaced, repeated.unplaced⟩
termination_by structural header => header

def Statement.unplaced : Statement Element → Statement Element
  | .ifThen condition body _ => .ifThen condition.unplaced (Element.listUnplaced body) {}
  | .otherwise body _ => .otherwise (Element.listUnplaced body) {}
  | .forLoop header body _ => .forLoop (ForHeader.unplaced header) (Element.listUnplaced body) {}
  | .whileLoop condition body _ => .whileLoop condition.unplaced (Element.listUnplaced body) {}
termination_by structural node => node

def Element.listUnplaced : List Element → List Element
  | [] => []
  | element :: elements => element.unplaced :: Element.listUnplaced elements
termination_by structural elements => elements

end

def Root.unplaced (root : Root) : Root := ⟨none, Element.listUnplaced root.elements⟩

theorem Value.listUnplaced_eq_map (values : List Value) :
    Value.listUnplaced values = values.map Value.unplaced := by
  induction values with
  | nil => rfl
  | cons value values ih => simp [Value.listUnplaced, ih]

theorem Element.listUnplaced_eq_map (elements : List Element) :
    Element.listUnplaced elements = elements.map Element.unplaced := by
  induction elements with
  | nil => rfl
  | cons element elements ih => simp [Element.listUnplaced, ih]

end Script
