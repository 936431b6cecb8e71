import Script.Proofs.Tree.Kinds
/-!
# Pruned JSON

An object may hold more than the node that is read from it. Pruning leaves the fields of the node,
in the order in which they are written, and drops the rest: members that no field of the node is
named after, and nulls where a field may be missing. What stands in a field is pruned the same way.
An array that holds the fields of a node in order counts as the object with these fields.
-/

namespace Script

inductive Content where
  /-- Anything, which is kept as it is. -/
  | plain
  /-- A tag, which may be the number of one of these. -/
  | tag (tags : List String)
  | literalKind
  | node (kind : NodeKind)
  /-- An array of nodes. -/
  | nodes (kind : NodeKind)

structure Field where
  name : String
  content : Content
  /-- Whether the field may be missing or null. -/
  optional : Bool

/-- Whether a value in the field stands for something, which null does not if the field may be
missing. -/
def Field.keeps (field : Field) : Json → Bool
  | .null => !field.optional
  | _ => true

/-! ### The fields of a node -/

def Position.field : Field := ⟨"position", .node .position, false⟩

def Reference.fields : List Field := [⟨"value", .plain, false⟩, Position.field]

def Literal.fields : List Field :=
  [⟨"type", .literalKind, false⟩, ⟨"value", .plain, false⟩, Position.field]

def Call.fields : List Field :=
  [⟨"name", .plain, false⟩, ⟨"internal", .plain, false⟩, ⟨"arguments", .nodes .value, false⟩,
    Position.field]

def Value.taggedFields : String → List Field
  | "invoke" => Call.fields
  | "reference" => Reference.fields
  | "literal" => Literal.fields
  | _ => []

def Assignment.fields : List Field :=
  [⟨"name", .plain, false⟩, ⟨"value", .node .value, false⟩, Position.field]

def Parameter.fields : List Field :=
  [⟨"name", .plain, false⟩, ⟨"type", .plain, false⟩, Position.field]

def Function.fields : List Field :=
  [⟨"returnType", .plain, false⟩, ⟨"arguments", .nodes .parameter, false⟩,
    ⟨"elements", .nodes .element, false⟩]

def ForHeader.fields : List Field :=
  [⟨"initial", .node .element, false⟩, ⟨"condition", .node .value, false⟩,
    ⟨"repeated", .node .element, false⟩]

/-- What a declared name is bound to: the body of a function if it can be read as one, else a
value. -/
def Binding.kind (members : Members) : NodeKind :=
  if ((members.get? "value").any fun value => (Function.ofJson .lenient value).isOk) then .function
  else .value

def Declaration.fields (members : Members) : List Field :=
  [⟨"name", .plain, false⟩, ⟨"constant", .plain, false⟩, ⟨"exported", .plain, false⟩,
    ⟨"type", .plain, false⟩, ⟨"value", .node (Binding.kind members), true⟩, Position.field]

def Statement.taggedFields : String → List Field
  | "if" | "while" =>
    [⟨"condition", .node .value, false⟩, ⟨"elements", .nodes .element, false⟩, Position.field]
  | "else" => [⟨"elements", .nodes .element, false⟩, Position.field]
  | "for" =>
    [⟨"expression", .node .forHeader, false⟩, ⟨"elements", .nodes .element, false⟩, Position.field]
  | _ => []

def Statement.fields (members : Members) : List Field :=
  ⟨"type", .tag Statement.tags, false⟩ ::
    ((members.tag? "type" Statement.tags .lenient).map Statement.taggedFields).getD []

def Element.taggedFields (members : Members) : String → List Field
  | "declaration" => Declaration.fields members
  | "assignment" => Assignment.fields
  | "statement" => Statement.fields members
  | tag => Value.taggedFields tag

/-- The fields of a node with these members. The tags of a node, or what a declared
name is bound to, settle which fields it has. -/
def NodeKind.fields (members : Members) : NodeKind → List Field
  | .position => [⟨"line", .plain, false⟩, ⟨"column", .plain, false⟩]
  | .reference => Reference.fields
  | .literal => Literal.fields
  | .call => Call.fields
  | .value =>
    ⟨"element", .tag Value.tags, false⟩ ::
      ((members.tag? "element" Value.tags .lenient).map Value.taggedFields).getD []
  | .assignment => Assignment.fields
  | .parameter => Parameter.fields
  | .function => Function.fields
  | .forHeader => ForHeader.fields
  | .declaration => Declaration.fields members
  | .statement => Statement.fields members
  | .element =>
    ⟨"element", .tag Element.tags, false⟩ ::
      ((members.tag? "element" Element.tags .lenient).map (Element.taggedFields members)).getD []
  | .root => [⟨"file", .plain, true⟩, ⟨"elements", .nodes .element, false⟩]

/-! ### Pruning -/

/-- What becomes of arrays that stand for nodes, of the tags of nodes and of the kinds of literals. -/
inductive Naming where
  | asFound
  | byName
deriving DecidableEq, Repr

/-- A tag or a kind as it was found, or by the name that it stands for if it is a number or an object
with one member. -/
def Naming.named : Naming → Content → Json → Json
  | .asFound, _, j => j
  | .byName, .tag tags, j =>
    match j.nat?.bind (tags[·]?) with
    | some name => .string name
    | none => j
  | .byName, .literalKind, .object [(name, _)] => .string name
  | .byName, _, j => j

/-- The fields of a node in an object, or without names if they were found in an array. -/
def Naming.assembled : Naming → Json → Members → Json
  | .asFound, .array _, members => .array (members.map Prod.snd)
  | _, _, members => .object members

@[simp] theorem Naming.assembled_byName (j : Json) (members : Members) :
    Naming.byName.assembled j members = .object members := by
  cases j <;> rfl

def Content.pruned (naming : Naming) (content : Content) (j : Json) : Json :=
  match content, j with
  | .node kind, j =>
    match _hmembers : j.members? kind.names with
    | none => j
    | some members =>
      naming.assembled j ((kind.fields members).filterMap fun field =>
        match _h : members.get? field.name with
        | none => none
        | some value =>
          if field.keeps value then some (field.name, field.content.pruned naming value) else none)
  | .nodes kind, .array items =>
    .array (items.attach.map fun item => (Content.node kind).pruned naming item.1)
  | content, j => naming.named content j
termination_by sizeOf j
decreasing_by
  · exact Nat.lt_trans (Members.sizeOf_lt_of_get? ‹_›) (Json.extent_lt_of_members? ‹_›)
  · exact Json.sizeOf_lt_of_mem item.2

namespace Members

def kept (naming : Naming) (members : Members) (fields : List Field) : Members :=
  fields.filterMap fun field =>
    ((members.get? field.name).filter field.keeps).map fun value =>
      (field.name, field.content.pruned naming value)

end Members

theorem Content.pruned_node {naming : Naming} {kind : NodeKind} {j : Json} {members : Members}
    (h : j.members? kind.names = some members) :
    (Content.node kind).pruned naming j =
      naming.assembled j (members.kept naming (kind.fields members)) := by
  rw [pruned, Members.kept]
  split
  · next hnone =>
    rw [hnone] at h
    cases h
  · next members' hsome =>
    obtain rfl := Option.some.inj (hsome.symm.trans h)
    congr 2
    funext field
    split
    · next h => rw [h, Option.filter_none, Option.map_none]
    · next value h =>
      rw [h, Option.filter_some]
      split <;> rfl

theorem Content.pruned_byName (kind : NodeKind) {j : Json} {members : Members}
    (h : j.members? kind.names = some members) :
    (Content.node kind).pruned .byName j =
      .object (members.kept .byName (kind.fields members)) := by
  rw [pruned_node h, Naming.assembled_byName]

/-- By name, nothing but what has the parts of a node is pruned to an object. -/
theorem Content.pruned_eq_object_iff {kind : NodeKind} {j : Json} {written : Members} :
    (Content.node kind).pruned .byName j = .object written ↔
      ∃ members, j.members? kind.names = some members ∧
        written = members.kept .byName (kind.fields members) := by
  cases h : j.members? kind.names with
  | some members =>
    rw [pruned_byName kind h, Json.object.injEq]
    simp [eq_comm]
  | none =>
    have hj : ∀ members : Members, j ≠ .object members := by
      rintro members rfl
      cases h
    have hpruned : (Content.node kind).pruned .byName j = j := by
      rw [pruned]
      split
      · rfl
      · next hsome =>
        rw [h] at hsome
        cases hsome
    simp [hpruned, hj]

theorem Content.pruned_array (naming : Naming) (kind : NodeKind) (items : List Json) :
    (Content.nodes kind).pruned naming (.array items) =
      .array (items.map ((Content.node kind).pruned naming)) := by
  rw [pruned]
  congr 1
  exact List.attach_map_val

@[simp] theorem Content.pruned_plain (naming : Naming) (j : Json) :
    Content.plain.pruned naming j = j := by
  rw [pruned.eq_def]
  cases naming <;> rfl

@[simp] theorem Content.pruned_tag (naming : Naming) (tags : List String) (j : Json) :
    (Content.tag tags).pruned naming j = naming.named (.tag tags) j := by
  rw [pruned.eq_def]

@[simp] theorem Content.pruned_literalKind (naming : Naming) (j : Json) :
    Content.literalKind.pruned naming j = naming.named .literalKind j := by
  rw [pruned.eq_def]

namespace Members

variable {naming : Naming} {members : Members} {field : Field} {fields : List Field}

theorem kept_cons {value : Json} (hvalue : members.get? field.name = some value)
    (hkeeps : field.keeps value = true) : members.kept naming (field :: fields) =
      (field.name, field.content.pruned naming value) :: members.kept naming fields := by
  rw [kept, List.filterMap_cons, hvalue, Option.filter_some, if_pos hkeeps]
  rfl

theorem kept_cons_required {name : String} {content : Content} {value : Json}
    (hvalue : members.get? name = some value) :
    members.kept naming (⟨name, content, false⟩ :: fields) =
      (name, content.pruned naming value) :: members.kept naming fields :=
  kept_cons hvalue (by cases value <;> rfl)

theorem kept_cons_absent {name : String} {content : Content}
    (habsent : members.get? name = none ∨ members.get? name = some .null) :
    members.kept naming (⟨name, content, true⟩ :: fields) = members.kept naming fields := by
  rcases habsent with h | h <;> simp [kept, h, Field.keeps]

/-- What is kept was there, in the field it belongs to, and nothing else is kept. -/
theorem mem_kept_iff {name : String} {value : Json} :
    (name, value) ∈ members.kept naming fields ↔ ∃ field ∈ fields, field.name = name ∧
      ∃ found, members.get? name = some found ∧ field.keeps found = true ∧
        value = field.content.pruned naming found := by
  simp only [kept, List.mem_filterMap, Option.map_eq_some_iff, Option.filter_eq_some_iff,
    Prod.mk.injEq]
  constructor
  · rintro ⟨field, hfield, found, ⟨hfound, hkeeps⟩, rfl, rfl⟩
    exact ⟨field, hfield, rfl, found, hfound, hkeeps, rfl⟩
  · rintro ⟨field, hfield, rfl, found, hfound, hkeeps, rfl⟩
    exact ⟨field, hfield, found, ⟨hfound, hkeeps⟩, rfl, rfl⟩

end Members

end Script
