import Script.Json
import Script.Token
import Script.Tree
/-!
# Trees from JSON

Reading undoes writing. Members that a node does not have are passed over. A missing member is
noticed only after all members that are there have been read, and these are read in the order of
their names, so of two errors in a node the one in the earlier member is reported.

A node may also be given as an array of what its fields hold, without their names, the tag first.
These are read in the order of the fields, and none may be missing or left over.

A tag tells nodes of several kinds apart. Inside a node with a tag, and in the value of a
declaration, reading is lenient: tags may also be numbers.
-/

namespace Script

inductive ReadError where
  /-- It has not the members of the node. -/
  | malformed
  | constantWithoutValue (name : String)
  | bodyOutsideFunction (name : String)
deriving DecidableEq, Repr

namespace ReadError

/-- The error in words, where more can be said than that the value does not fit. -/
def message? : ReadError → Option String
  | .malformed => none
  | .constantWithoutValue name => some ("constant " ++ Text.quoted name ++ " has no value")
  | .bodyOutsideFunction name =>
    some (Text.quoted name ++ " has a function body but is not a function")

end ReadError

/-- A result in which nothing stands for a value that does not fit. -/
def orMalformed {α : Type} : Option α → Except ReadError α
  | none => .error .malformed
  | some a => .ok a

/-- How freely the tags of nodes and the kinds of literals are spelled. -/
inductive Spelling where
  | strict
  | lenient
deriving DecidableEq, Repr

/-- The tag that a value names. If reading is lenient, it may be the number of one of these tags,
counted from zero. -/
def Json.tag? (tags : List String) : Spelling → Json → Option String
  | _, .string tag => some tag
  | .strict, _ => none
  | .lenient, value => value.nat?.bind (tags[·]?)

namespace Members

def string? (members : Members) (name : String) : Option String :=
  (members.get? name).bind Json.string?

def bool? (members : Members) (name : String) : Option Bool :=
  (members.get? name).bind Json.bool?

/-- A line or a column, which has to fit into 64 bits. -/
def coordinate? (members : Members) (name : String) : Option Nat :=
  ((members.get? name).bind Json.nat?).filter (· < UInt64.size)

def tag? (members : Members) (name : String) (tags : List String) (spelling : Spelling) :
    Option String :=
  (members.get? name).bind (Json.tag? tags spelling)

/-- Reads a member if it is there. The reader may rely on its being a part of the node. -/
def readIfPresent {α : Type} (members : Members) (name : String)
    (read : (value : Json) → sizeOf value < members.extent → Except ReadError α) :
    Except ReadError (Option α) :=
  match h : members.get? name with
  | none => .ok none
  | some value => (read value (sizeOf_lt_of_get? h)).map some

end Members

/-! ### Objects and arrays -/

inductive Parts.Order where
  | byName
  | byField
deriving DecidableEq, Repr

/-- Reads two parts of a node, the first of which comes first by name and last by field. -/
def Parts.Order.both {α β : Type} (x : Except ReadError α) (y : Except ReadError β) :
    Parts.Order → Except ReadError (α × β)
  | .byName => do
    let a ← x
    let b ← y
    return (a, b)
  | .byField => do
    let b ← y
    let a ← x
    return (a, b)

structure Parts where
  members : Members
  order : Parts.Order
  /-- Whether an array has an item for each field and no more. -/
  complete : Bool

def Parts.ifComplete {α : Type} (parts : Parts) (result : Except ReadError α) :
    Except ReadError α :=
  if parts.complete then result else .error .malformed

namespace Json

/-- The parts of a node. In an array the fields have these names. -/
def parts? (names : List Json → List String) : Json → Option Parts
  | .object members => some ⟨members, .byName, true⟩
  | .array items =>
    some ⟨(names items).zip items, .byField, items.length == (names items).length⟩
  | _ => none

def members? (names : List Json → List String) (j : Json) : Option Members :=
  (j.parts? names).bind fun parts => if parts.complete then some parts.members else none

theorem members?_eq_some_iff {names : List Json → List String} {j : Json} {members : Members} :
    j.members? names = some members ↔
      ∃ parts, j.parts? names = some parts ∧ parts.complete = true ∧ parts.members = members := by
  simp [members?, Option.bind_eq_some_iff]

theorem extent_lt_of_parts? {names : List Json → List String} {j : Json} {parts : Parts}
    (h : j.parts? names = some parts) : parts.members.extent < sizeOf j := by
  cases j with
  | object members =>
    cases h
    exact Members.extent_lt_sizeOf_object members
  | array items =>
    cases h
    exact Members.extent_zip_lt_sizeOf_array _ items
  | _ => cases h

theorem extent_lt_of_members? {names : List Json → List String} {j : Json} {members : Members}
    (h : j.members? names = some members) : members.extent < sizeOf j := by
  obtain ⟨parts, hparts, -, rfl⟩ := members?_eq_some_iff.1 h
  exact extent_lt_of_parts? hparts

/-- Reads a node from its parts. The reader may rely on their being smaller. -/
def readParts {α : Type} (names : List Json → List String) (j : Json)
    (read : (parts : Parts) → parts.members.extent < sizeOf j → Except ReadError α) :
    Except ReadError α :=
  match h : j.parts? names with
  | none => .error .malformed
  | some parts => read parts (extent_lt_of_parts? h)

/-- Reads a node from its members, in which no error is worth a message. -/
def readMembers? {α : Type} (names : List Json → List String) (j : Json)
    (read : (members : Members) → members.extent < sizeOf j → Option α) : Option α :=
  match h : j.members? names with
  | none => none
  | some members => read members (extent_lt_of_members? h)

/-- The names of the fields of a node with a tag, which settles those beside it. -/
def taggedNames (name : String) (tags : List String) (names : String → List Json → List String) :
    List Json → List String
  | [] => [name]
  | tag :: items => name :: ((tag.tag? tags .lenient).map (names · items)).getD []

end Json

namespace Json

def readAll {m : Type → Type} [Monad m] {α : Type} :
    (items : List Json) → ((item : Json) → item ∈ items → m α) → m (List α)
  | [], _ => pure []
  | item :: items, read => do
    let a ← read item List.mem_cons_self
    let as ← readAll items fun item h => read item (List.mem_cons_of_mem _ h)
    return a :: as

theorem readAll_eq_mapM {m : Type → Type} [Monad m] [LawfulMonad m] {α : Type} (read : Json → m α)
    (items : List Json) : readAll items (fun item _ => read item) = items.mapM read := by
  induction items with
  | nil => simp [readAll]
  | cons item items ih => simp [readAll, ih]

theorem sizeOf_lt_of_mem {item : Json} {items : List Json} (h : item ∈ items) :
    sizeOf item < sizeOf (Json.array items) := by
  have := List.sizeOf_lt_of_mem h
  simp only [Json.array.sizeOf_spec]
  omega

end Json

/-! ### Nodes without nodes in them -/

namespace Position

def names (_ : List Json) : List String := ["line", "column"]

def ofJson? (j : Json) : Option Position := do
  let members ← j.members? names
  let line ← members.coordinate? "line"
  let column ← members.coordinate? "column"
  return ⟨line, column⟩

def ofMembers? (members : Members) : Option Position := (members.get? "position").bind ofJson?

end Position

namespace Token

def names (_ : List Json) : List String := ["position", "value"]

def ofJson? (j : Json) : Option Token := do
  let members ← j.members? names
  let position ← Position.ofMembers? members
  let value ← members.string? "value"
  return ⟨position, value⟩

end Token

namespace Reference

def names (_ : List Json) : List String := ["value", "position"]

def ofMembers? (members : Members) : Option Reference := do
  let name ← members.string? "value"
  let position ← Position.ofMembers? members
  return ⟨name, position⟩

def ofJson? (j : Json) : Option Reference := (j.members? names).bind ofMembers?

end Reference

/-- A kind is given by its name, or by an object whose one member has that name and holds null, or
holds an empty object if reading is lenient. -/
def LiteralKind.ofJson? (spelling : Spelling) : Json → Option LiteralKind
  | .string name => ofName? name
  | .object [(name, .null)] => ofName? name
  | .object [(name, .object [])] =>
    match spelling with
    | .strict => none
    | .lenient => ofName? name
  | _ => none

namespace Literal

def names (_ : List Json) : List String := ["type", "value", "position"]

def ofMembers? (spelling : Spelling) (members : Members) : Option Literal := do
  let kind ← (members.get? "type").bind (LiteralKind.ofJson? spelling)
  let text ← members.string? "value"
  let position ← Position.ofMembers? members
  return ⟨kind, text, position⟩

def ofJson? (spelling : Spelling) (j : Json) : Option Literal :=
  (j.members? names).bind (ofMembers? spelling)

end Literal

namespace Parameter

def names (_ : List Json) : List String := ["name", "type", "position"]

def ofJson? (j : Json) : Option Parameter := do
  let members ← j.members? names
  let name ← members.string? "name"
  let type ← members.string? "type"
  let position ← Position.ofMembers? members
  return ⟨name, type, position⟩

def listOfJson? : Json → Option (List Parameter)
  | .array items => items.mapM ofJson?
  | _ => none

end Parameter

/-! ### Values -/

def Call.names (_ : List Json) : List String := ["name", "internal", "arguments", "position"]

def Value.tags : List String := ["invoke", "reference", "literal"]

def Value.taggedNames : String → List Json → List String
  | "invoke" => Call.names
  | "reference" => Reference.names
  | "literal" => Literal.names
  | _ => fun _ => []

def Value.names : List Json → List String := Json.taggedNames "element" tags taggedNames

mutual

def Value.ofJson? (spelling : Spelling) (j : Json) : Option Value :=
  j.readMembers? Value.names fun members _ => do
    let tag ← members.tag? "element" Value.tags spelling
    Value.ofTagged? tag members
termination_by (sizeOf j, 0)
decreasing_by exact .left _ _ ‹_›

def Value.ofTagged? (tag : String) (members : Members) : Option Value :=
  match tag with
  | "invoke" => (Call.ofMembers? .lenient members).map .call
  | "reference" => (Reference.ofMembers? members).map .reference
  | "literal" => (Literal.ofMembers? .lenient members).map .literal
  | _ => none
termination_by (members.extent, 1)
decreasing_by exact .right _ Nat.zero_lt_one

def Call.ofMembers? (spelling : Spelling) (members : Members) : Option (Call Value) := do
  let name ← members.string? "name"
  let internal ← members.bool? "internal"
  let arguments ←
    match _h : members.get? "arguments" with
    | some value => Value.listOfJson? spelling value
    | none => none
  let position ← Position.ofMembers? members
  return ⟨name, internal, arguments, position⟩
termination_by (members.extent, 0)
decreasing_by exact .left _ _ (Members.sizeOf_lt_of_get? ‹_›)

def Value.listOfJson? (spelling : Spelling) : Json → Option (List Value)
  | .array items => Json.readAll items fun item _ => Value.ofJson? spelling item
  | _ => none
termination_by j => (sizeOf j, 0)
decreasing_by exact .left _ _ (Json.sizeOf_lt_of_mem ‹_›)

end

def Call.ofJson? (spelling : Spelling) (j : Json) : Option (Call Value) :=
  (j.members? Call.names).bind (Call.ofMembers? spelling)

namespace Assignment

def names (_ : List Json) : List String := ["name", "value", "position"]

def ofMembers? (spelling : Spelling) (members : Members) : Option Assignment := do
  let name ← members.string? "name"
  let value ← (members.get? "value").bind (Value.ofJson? spelling)
  let position ← Position.ofMembers? members
  return ⟨name, value, position⟩

def ofJson? (spelling : Spelling) (j : Json) : Option Assignment :=
  (j.members? names).bind (ofMembers? spelling)

end Assignment

/-! ### Elements -/

/-- The binding of a declaration with a type and a value, which may be a function's body. Only a
constant of type `function` is bound to a body, and every other constant has a value. -/
def Binding.ofParts {ε : Type} (name type : String) (constant : Bool) :
    Option (Function ε ⊕ Value) → Except ReadError (Binding ε)
  | some (.inl body) =>
    if constant ∧ type = functionType then .ok (.function body)
    else .error (.bodyOutsideFunction name)
  | some (.inr value) => .ok (if constant then .constant type value else .variable type (some value))
  | none => if constant then .error (.constantWithoutValue name) else .ok (.variable type none)

def Declaration.names (_ : List Json) : List String :=
  ["name", "constant", "exported", "type", "value", "position"]

def Function.names (_ : List Json) : List String := ["returnType", "arguments", "elements"]

def ForHeader.names (_ : List Json) : List String := ["initial", "condition", "repeated"]

def Statement.tags : List String := ["if", "else", "for", "while"]

def Statement.taggedNames : String → List Json → List String
  | "if", _ | "while", _ => ["condition", "elements", "position"]
  | "else", _ => ["elements", "position"]
  | "for", _ => ["expression", "elements", "position"]
  | _, _ => []

def Statement.names : List Json → List String := Json.taggedNames "type" tags taggedNames

def Element.tags : List String :=
  ["declaration", "assignment", "invoke", "reference", "literal", "statement"]

def Element.taggedNames : String → List Json → List String
  | "declaration" => Declaration.names
  | "assignment" => Assignment.names
  | "statement" => Statement.names
  | tag => Value.taggedNames tag

def Element.names : List Json → List String := Json.taggedNames "element" tags taggedNames

mutual

def Element.ofJson (spelling : Spelling) (j : Json) : Except ReadError Element :=
  j.readParts Element.names fun parts _ =>
    match parts.members.tag? "element" Element.tags spelling with
    | some "declaration" =>
      parts.ifComplete ((Declaration.ofMembers parts.members).map .declaration)
    | some "assignment" =>
      parts.ifComplete (orMalformed ((Assignment.ofMembers? .lenient parts.members).map .assignment))
    | some "statement" => (Statement.ofParts .lenient parts).map .statement
    | some tag => parts.ifComplete (orMalformed ((Value.ofTagged? tag parts.members).map .value))
    | none => .error .malformed
termination_by sizeOf j
decreasing_by all_goals assumption

/-- A value is read as a function's body if it is one, else as a value. -/
def Declaration.ofMembers (members : Members) : Except ReadError (Declaration Element) := do
  let value? ← members.readIfPresent "value" fun value _ =>
    match value with
    | .null => .ok none
    | value =>
      match Function.ofJson .lenient value with
      | .ok function => .ok (some (.inl function))
      | .error _ => orMalformed ((Value.ofJson? .lenient value).map fun value => some (.inr value))
  let name ← orMalformed (members.string? "name")
  let constant ← orMalformed (members.bool? "constant")
  let exported ← orMalformed (members.bool? "exported")
  let type ← orMalformed (members.string? "type")
  let position ← orMalformed (Position.ofMembers? members)
  let binding ← Binding.ofParts name type constant value?.join
  return ⟨name, exported, position, binding⟩
termination_by members.extent
decreasing_by assumption

def Function.ofJson (spelling : Spelling) (j : Json) : Except ReadError (Function Element) :=
  j.readParts Function.names fun parts _ => do
    let members := parts.members
    let ((parameters?, body?), returnType?) ← parts.order.both
      (do
        let parameters? ← members.readIfPresent "arguments" fun value _ =>
          orMalformed (Parameter.listOfJson? value)
        let body? ← members.readIfPresent "elements" fun value _ =>
          Element.listOfJson spelling value
        return (parameters?, body?))
      (members.readIfPresent "returnType" fun value _ => orMalformed value.string?)
    parts.ifComplete (orMalformed do return ⟨← returnType?, ← parameters?, ← body?⟩)
termination_by sizeOf j
decreasing_by exact Nat.lt_trans ‹_› ‹_›

def ForHeader.ofJson (spelling : Spelling) (j : Json) : Except ReadError (ForHeader Element) :=
  j.readParts ForHeader.names fun parts _ => do
    let members := parts.members
    let (condition?, initial?) ← parts.order.both
      (members.readIfPresent "condition" fun value _ => orMalformed (Value.ofJson? spelling value))
      (members.readIfPresent "initial" fun value _ => Element.ofJson spelling value)
    let repeated? ← members.readIfPresent "repeated" fun value _ => Element.ofJson spelling value
    parts.ifComplete (orMalformed do return ⟨← initial?, ← condition?, ← repeated?⟩)
termination_by sizeOf j
decreasing_by all_goals exact Nat.lt_trans ‹_› ‹_›

def Statement.ofParts (spelling : Spelling) (parts : Parts) :
    Except ReadError (Statement Element) :=
  let members := parts.members
  match members.tag? "type" Statement.tags spelling with
  | some "if" => do
    let condition? ← members.readIfPresent "condition" fun value _ =>
      orMalformed (Value.ofJson? .lenient value)
    let body? ← members.readIfPresent "elements" fun value _ => Element.listOfJson .lenient value
    parts.ifComplete <| orMalformed do
      return .ifThen (← condition?) (← body?) (← Position.ofMembers? members)
  | some "else" => do
    let body? ← members.readIfPresent "elements" fun value _ => Element.listOfJson .lenient value
    parts.ifComplete <| orMalformed do
      return .otherwise (← body?) (← Position.ofMembers? members)
  | some "for" => do
    let (body?, header?) ← parts.order.both
      (members.readIfPresent "elements" fun value _ => Element.listOfJson .lenient value)
      (members.readIfPresent "expression" fun value _ => ForHeader.ofJson .lenient value)
    parts.ifComplete <| orMalformed do
      return .forLoop (← header?) (← body?) (← Position.ofMembers? members)
  | some "while" => do
    let condition? ← members.readIfPresent "condition" fun value _ =>
      orMalformed (Value.ofJson? .lenient value)
    let body? ← members.readIfPresent "elements" fun value _ => Element.listOfJson .lenient value
    parts.ifComplete <| orMalformed do
      return .whileLoop (← condition?) (← body?) (← Position.ofMembers? members)
  | _ => .error .malformed
termination_by parts.members.extent
decreasing_by all_goals assumption

def Element.listOfJson (spelling : Spelling) : Json → Except ReadError (List Element)
  | .array items => Json.readAll items fun item _ => Element.ofJson spelling item
  | _ => .error .malformed
termination_by j => sizeOf j
decreasing_by exact Json.sizeOf_lt_of_mem ‹_›

end

def Declaration.ofJson (j : Json) : Except ReadError (Declaration Element) :=
  j.readParts names fun parts _ => parts.ifComplete (ofMembers parts.members)

def Statement.ofJson (spelling : Spelling) (j : Json) : Except ReadError (Statement Element) :=
  j.readParts names fun parts _ => ofParts spelling parts

namespace Root

def names (_ : List Json) : List String := ["file", "elements"]

/-- A root without a file has none, or says so. -/
def ofJson (j : Json) : Except ReadError Root :=
  j.readParts names fun parts _ => do
    let (elements?, file) ← parts.order.both
      (parts.members.readIfPresent "elements" fun value _ => Element.listOfJson .strict value)
      (match parts.members.get? "file" with
        | none | some .null => .ok none
        | some value => orMalformed (value.string?.map some))
    parts.ifComplete (orMalformed do return ⟨file, ← elements?⟩)

end Root

end Script
