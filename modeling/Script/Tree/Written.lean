import Script.Json
import Script.Token
import Script.Tree
/-!
# The tree as JSON

Each node is an object with its own members. Where nodes of several kinds may stand, the member
`element` tells them apart, and among statements the member `type`. A declaration is written flat:
a function is a constant of type `function` whose value is the function's body.
-/

namespace Script

namespace Position

def toJson (p : Position) : Json :=
  .object [("line", .ofNat p.line), ("column", .ofNat p.column)]

end Position

namespace Token

def toJson (t : Token) : Json :=
  .object [("position", t.position.toJson), ("value", .string t.value)]

end Token

namespace Reference

def members (r : Reference) : Members :=
  [("value", .string r.name), ("position", r.position.toJson)]

def toJson (r : Reference) : Json := .object r.members

end Reference

namespace Literal

def members (l : Literal) : Members :=
  [("type", .string l.kind.name), ("value", .string l.text), ("position", l.position.toJson)]

def toJson (l : Literal) : Json := .object l.members

end Literal

mutual

def Value.toJson : Value → Json
  | .call node => .object (("element", .string "invoke") :: Call.members node)
  | .reference node => .object (("element", .string "reference") :: node.members)
  | .literal node => .object (("element", .string "literal") :: node.members)
termination_by structural value => value

def Call.members : Call Value → Members
  | ⟨name, internal, arguments, position⟩ =>
    [("name", .string name), ("internal", .bool internal),
      ("arguments", .array (Value.listToJson arguments)), ("position", position.toJson)]
termination_by structural node => node

def Value.listToJson : List Value → List Json
  | [] => []
  | value :: values => value.toJson :: Value.listToJson values
termination_by structural values => values

end

def Call.toJson (node : Call Value) : Json := .object (Call.members node)

namespace Assignment

def members (a : Assignment) : Members :=
  [("name", .string a.name), ("value", a.value.toJson), ("position", a.position.toJson)]

def toJson (a : Assignment) : Json := .object a.members

end Assignment

namespace Parameter

def toJson (p : Parameter) : Json :=
  .object [("name", .string p.name), ("type", .string p.type), ("position", p.position.toJson)]

end Parameter

def Declaration.flat (name type : String) (constant exported : Bool) (value? : Option Json)
    (position : Position) : Members :=
  [("name", .string name), ("constant", .bool constant), ("exported", .bool exported),
    ("type", .string type)] ++
  ((value?.map fun value => ("value", value)).toList ++ [("position", position.toJson)])

mutual

def Element.toJson : Element → Json
  | .declaration node => .object (("element", .string "declaration") :: Declaration.members node)
  | .assignment node => .object (("element", .string "assignment") :: node.members)
  | .value node => node.toJson
  | .statement node => .object (("element", .string "statement") :: Statement.members node)
termination_by structural element => element

def Declaration.members : Declaration Element → Members
  | ⟨name, exported, position, binding⟩ =>
    match binding with
    | .function function =>
      Declaration.flat name functionType true exported (some (Function.toJson function)) position
    | .constant type value =>
      Declaration.flat name type true exported (some value.toJson) position
    | .variable type value? =>
      Declaration.flat name type false exported (value?.map Value.toJson) position
termination_by structural node => node

def Function.toJson : Function Element → Json
  | ⟨returnType, parameters, body⟩ =>
    .object [("returnType", .string returnType),
      ("arguments", .array (parameters.map Parameter.toJson)),
      ("elements", .array (Element.listToJson body))]
termination_by structural function => function

def ForHeader.toJson : ForHeader Element → Json
  | ⟨initial, condition, repeated⟩ =>
    .object [("initial", initial.toJson), ("condition", condition.toJson),
      ("repeated", repeated.toJson)]
termination_by structural header => header

def Statement.members : Statement Element → Members
  | .ifThen condition body position =>
    [("type", .string "if"), ("condition", condition.toJson),
      ("elements", .array (Element.listToJson body)), ("position", position.toJson)]
  | .otherwise body position =>
    [("type", .string "else"), ("elements", .array (Element.listToJson body)),
      ("position", position.toJson)]
  | .forLoop header body position =>
    [("type", .string "for"), ("expression", ForHeader.toJson header),
      ("elements", .array (Element.listToJson body)), ("position", position.toJson)]
  | .whileLoop condition body position =>
    [("type", .string "while"), ("condition", condition.toJson),
      ("elements", .array (Element.listToJson body)), ("position", position.toJson)]
termination_by structural node => node

def Element.listToJson : List Element → List Json
  | [] => []
  | element :: elements => element.toJson :: Element.listToJson elements
termination_by structural elements => elements

end

def Declaration.toJson (node : Declaration Element) : Json := .object (Declaration.members node)

def Statement.toJson (node : Statement Element) : Json := .object (Statement.members node)

namespace Root

/-- The file is written only if there is one. -/
def toJson (root : Root) : Json :=
  .object ((root.file.map fun file => ("file", .string file)).toList ++
    [("elements", .array (Element.listToJson root.elements))])

end Root

theorem Value.listToJson_eq_map (values : List Value) :
    Value.listToJson values = values.map Value.toJson := by
  induction values with
  | nil => rfl
  | cons value values ih => simp [Value.listToJson, ih]

theorem Element.listToJson_eq_map (elements : List Element) :
    Element.listToJson elements = elements.map Element.toJson := by
  induction elements with
  | nil => rfl
  | cons element elements ih => simp [Element.listToJson, ih]

end Script
