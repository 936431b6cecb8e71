import Script.Proofs.Tree.Places
/-!
# Siblings

The lists of nodes that a tree is made of: the elements of a program or a body, the parameters of a
function, the arguments of a call. Each of them is told by where its members stand.
-/

namespace Script

mutual

def Value.siblings : Value → List (List Position)
  | .call node => Call.siblings node
  | .reference _ => []
  | .literal _ => []
termination_by structural value => value

def Call.siblings : Call Value → List (List Position)
  | ⟨_, _, arguments, _⟩ => arguments.map Value.position :: Value.listSiblings arguments
termination_by structural node => node

def Value.listSiblings : List Value → List (List Position)
  | [] => []
  | value :: values => value.siblings ++ Value.listSiblings values
termination_by structural values => values

end

def Assignment.siblings (a : Assignment) : List (List Position) := a.value.siblings

mutual

def Element.siblings : Element → List (List Position)
  | .declaration node => Declaration.siblings node
  | .assignment node => node.siblings
  | .value node => node.siblings
  | .statement node => Statement.siblings node
termination_by structural element => element

def Declaration.siblings : Declaration Element → List (List Position)
  | ⟨_, _, _, binding⟩ => Binding.siblings binding
termination_by structural node => node

def Binding.siblings : Binding Element → List (List Position)
  | .function function => Function.siblings function
  | .constant _ value => value.siblings
  | .variable _ value? => value?.toList.flatMap Value.siblings
termination_by structural binding => binding

def Function.siblings : Function Element → List (List Position)
  | ⟨_, parameters, body⟩ =>
    parameters.map Parameter.position :: body.map Element.position :: Element.listSiblings body
termination_by structural function => function

def ForHeader.siblings : ForHeader Element → List (List Position)
  | ⟨initial, condition, repeated⟩ =>
    initial.siblings ++ (condition.siblings ++ repeated.siblings)
termination_by structural header => header

def Statement.siblings : Statement Element → List (List Position)
  | .ifThen condition body _ =>
    condition.siblings ++ body.map Element.position :: Element.listSiblings body
  | .otherwise body _ => body.map Element.position :: Element.listSiblings body
  | .forLoop header body _ =>
    ForHeader.siblings header ++ body.map Element.position :: Element.listSiblings body
  | .whileLoop condition body _ =>
    condition.siblings ++ body.map Element.position :: Element.listSiblings body
termination_by structural node => node

def Element.listSiblings : List Element → List (List Position)
  | [] => []
  | element :: elements => element.siblings ++ Element.listSiblings elements
termination_by structural elements => elements

end

/-- The lists of siblings in a tree, its elements being the first. -/
def Root.siblings (root : Root) : List (List Position) :=
  root.elements.map Element.position :: Element.listSiblings root.elements

theorem Value.listSiblings_eq_flatMap (values : List Value) :
    Value.listSiblings values = values.flatMap Value.siblings := by
  induction values with
  | nil => rfl
  | cons value values ih => rw [Value.listSiblings, ih, List.flatMap_cons]

theorem Element.listSiblings_eq_flatMap (elements : List Element) :
    Element.listSiblings elements = elements.flatMap Element.siblings := by
  induction elements with
  | nil => rfl
  | cons element elements ih => rw [Element.listSiblings, ih, List.flatMap_cons]

/-! ### Walks -/

/-- How nodes of some type are walked: where a node stands, where it and its parts stand in
pre-order, and which lists of siblings are in it. -/
structure Walk (ν : Type) where
  position : ν → Position
  positions : ν → List Position
  siblings : ν → List (List Position)
  position_mem : ∀ node, position node ∈ positions node

theorem Value.position_mem_positions (v : Value) : v.position ∈ v.positions := by
  cases v with
  | call node =>
    obtain ⟨name, internal, arguments, position⟩ := node
    exact List.mem_cons_self
  | reference node => exact List.mem_cons_self
  | literal node => exact List.mem_cons_self

private theorem Element.position_mem_positions (e : Element) : e.position ∈ e.positions := by
  cases e with
  | declaration node =>
    obtain ⟨name, exported, position, binding⟩ := node
    exact List.mem_cons_self
  | assignment node => exact List.mem_cons_self
  | value node => exact node.position_mem_positions
  | statement node => cases node <;> exact List.mem_cons_self

namespace Walk

def parameter : Walk Parameter where
  position := Parameter.position
  positions p := [p.position]
  siblings _ := []
  position_mem _ := List.mem_cons_self

def value : Walk Value where
  position := Value.position
  positions := Value.positions
  siblings := Value.siblings
  position_mem := Value.position_mem_positions

def element : Walk Element where
  position := Element.position
  positions := Element.positions
  siblings := Element.siblings
  position_mem := Element.position_mem_positions

end Walk

end Script
