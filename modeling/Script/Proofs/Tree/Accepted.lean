import Mathlib.Data.List.Forall2
import Script.Proofs.Tree.Places
import Script.Tree.Reading
/-!
# What is accepted as a node

A JSON value is read as a node if it is an object whose members are read as the parts of the node,
whatever other members it has, or an array that holds these parts and no others. For each type of
node this is one equivalence, from which it follows both that what is written is read and what was
there when something has been read.
-/

namespace Script

variable {α β : Type} {spelling : Spelling} {members : Members} {j : Json} {name : String}

/-! ### Results -/

@[simp] theorem orMalformed_eq_ok_iff {a? : Option α} {a : α} :
    orMalformed a? = .ok a ↔ a? = some a := by
  cases a? <;> simp [orMalformed]

@[simp] theorem bind_eq_ok_iff {ε : Type} {x : Except ε α} {f : α → Except ε β} {b : β} :
    x >>= f = .ok b ↔ ∃ a, x = .ok a ∧ f a = .ok b := by
  cases x with
  | error e => simp [bind, Except.bind]
  | ok a => simp [bind, Except.bind]

@[simp] theorem map_eq_ok_iff {ε : Type} {x : Except ε α} {f : α → β} {b : β} :
    x.map f = .ok b ↔ ∃ a, x = .ok a ∧ f a = b := by
  cases x <;> simp [Except.map]

/-- Where a sequence of two steps gives a result if both do, a list of steps does if all do. -/
theorem mapM_eq_pure_iff {m : Type → Type} [Monad m] [LawfulMonad m]
    (hpure : ∀ {α : Type} {a b : α}, (pure a : m α) = pure b ↔ a = b)
    (hbind : ∀ {α β : Type} {x : m α} {f : α → m β} {b : β},
      x >>= f = pure b ↔ ∃ a, x = pure a ∧ f a = pure b)
    {read : α → m β} {items : List α} {results : List β} :
    items.mapM read = pure results ↔
      List.Forall₂ (fun item result => read item = pure result) items results := by
  induction items generalizing results with
  | nil => simp [hpure, eq_comm]
  | cons item items ih =>
    simp only [List.mapM_cons, hbind, hpure, List.forall₂_cons_left_iff, ih]
    constructor
    · rintro ⟨b, hb, bs, hbs, rfl⟩
      exact ⟨b, bs, hb, hbs, rfl⟩
    · rintro ⟨b, bs, hb, hbs, rfl⟩
      exact ⟨b, hb, bs, hbs, rfl⟩

theorem mapM_eq_some_iff {read : α → Option β} {items : List α} {results : List β} :
    items.mapM read = some results ↔
      List.Forall₂ (fun item result => read item = some result) items results :=
  mapM_eq_pure_iff Option.some_inj (by simp [Option.bind_eq_some_iff])

private theorem mapM_eq_ok_iff {ε : Type} {read : α → Except ε β} {items : List α}
    {results : List β} : items.mapM read = .ok results ↔
      List.Forall₂ (fun item result => read item = .ok result) items results :=
  mapM_eq_pure_iff (by simp [pure, Except.pure]) bind_eq_ok_iff

/-! ### Members -/

namespace Members

@[simp] theorem string?_eq_some_iff {s : String} :
    members.string? name = some s ↔ members.get? name = some (.string s) := by
  simp [string?, Option.bind_eq_some_iff, Json.string?_eq_some_iff]

@[simp] theorem bool?_eq_some_iff {b : Bool} :
    members.bool? name = some b ↔ members.get? name = some (.bool b) := by
  simp [bool?, Option.bind_eq_some_iff, Json.bool?_eq_some_iff]

@[simp] theorem coordinate?_eq_some_iff {n : Nat} :
    members.coordinate? name = some n ↔
      members.get? name = some (.ofNat n) ∧ n < UInt64.size := by
  simp [coordinate?, Option.filter_eq_some_iff, Option.bind_eq_some_iff, Json.nat?_eq_some_iff]

theorem readIfPresent_eq_ok_iff {read : Json → Except ReadError α} {a? : Option α} :
    members.readIfPresent name (fun value _ => read value) = .ok a? ↔
      members.get? name = none ∧ a? = none ∨
        ∃ value a, members.get? name = some value ∧ read value = .ok a ∧ a? = some a := by
  unfold readIfPresent
  split
  · next h => simp [h, eq_comm]
  · next value h =>
    rw [map_eq_ok_iff]
    constructor
    · rintro ⟨a, ha, rfl⟩
      exact .inr ⟨value, a, h, ha, rfl⟩
    · rintro (⟨hnone, -⟩ | ⟨_, a, hvalue, ha, rfl⟩)
      · rw [h] at hnone
        cases hnone
      · obtain rfl := Option.some.inj (h.symm.trans hvalue)
        exact ⟨a, ha, rfl⟩

@[simp] theorem readIfPresent_eq_some_iff {read : Json → Except ReadError α} {a : α} :
    members.readIfPresent name (fun value _ => read value) = .ok (some a) ↔
      ∃ value, members.get? name = some value ∧ read value = .ok a := by
  simp [readIfPresent_eq_ok_iff]

end Members

/-! ### Objects and arrays -/

@[simp] theorem Parts.ifComplete_eq_ok_iff {parts : Parts} {result : Except ReadError α} {a : α} :
    parts.ifComplete result = .ok a ↔ parts.complete = true ∧ result = .ok a := by
  unfold ifComplete
  split <;> simp [*]

/-- The order decides only which of two errors is reported. -/
@[simp] theorem Parts.Order.both_eq_ok_iff {order : Parts.Order} {x : Except ReadError α}
    {y : Except ReadError β} {pair : α × β} :
    order.both x y = .ok pair ↔ x = .ok pair.1 ∧ y = .ok pair.2 := by
  obtain ⟨a, b⟩ := pair
  cases order
  · simp [both, pure, Except.pure]
  · simp [both, pure, Except.pure, and_comm]

namespace Json

variable {names : List Json → List String}

@[simp] theorem members?_null : Json.null.members? names = none := rfl

private theorem readMembers?_eq_some_iff {read : Members → Option α} {a : α} :
    j.readMembers? names (fun members _ => read members) = some a ↔
      ∃ members, j.members? names = some members ∧ read members = some a := by
  unfold readMembers?
  split
  · next h => simp [h]
  · next members h => simp [h]

private theorem readParts_eq_ok_iff {read : Parts → Except ReadError α} {a : α} :
    j.readParts names (fun parts _ => read parts) = .ok a ↔
      ∃ parts, j.parts? names = some parts ∧ read parts = .ok a := by
  unfold readParts
  split
  · next h => simp [h]
  · next parts h => simp [h]

/-- Where a reader asks for all parts of a node, it reads the members. -/
theorem readParts_eq_ok_iff_of_complete {read : Parts → Except ReadError α} {a : α}
    {Reads : Members → Prop}
    (hread : ∀ parts, read parts = .ok a ↔ parts.complete = true ∧ Reads parts.members) :
    j.readParts names (fun parts _ => read parts) = .ok a ↔
      ∃ members, j.members? names = some members ∧ Reads members := by
  simp only [readParts_eq_ok_iff, members?_eq_some_iff, hread]
  constructor
  · rintro ⟨parts, hparts, hcomplete, h⟩
    exact ⟨_, ⟨parts, hparts, hcomplete, rfl⟩, h⟩
  · rintro ⟨_, ⟨parts, hparts, hcomplete, rfl⟩, h⟩
    exact ⟨parts, hparts, hcomplete, h⟩

end Json

/-! ### Positions -/

structure Position.Fits (p : Position) : Prop where
  line : p.line < UInt64.size
  column : p.column < UInt64.size

theorem Position.ofJson?_eq_some_iff {p : Position} :
    ofJson? j = some p ↔ p.Fits ∧ ∃ members, j.members? names = some members ∧
      members.get? "line" = some (.ofNat p.line) ∧
      members.get? "column" = some (.ofNat p.column) := by
  obtain ⟨line, column⟩ := p
  simp only [ofJson?, bind, Option.bind_eq_some_iff, Members.coordinate?_eq_some_iff]
  constructor
  · rintro ⟨members, hmembers, line, ⟨hline, hl⟩, column, ⟨hcolumn, hc⟩, h⟩
    cases h
    exact ⟨⟨hl, hc⟩, members, hmembers, hline, hcolumn⟩
  · rintro ⟨hfits, members, hmembers, hline, hcolumn⟩
    exact ⟨members, hmembers, line, ⟨hline, hfits.line⟩, column, ⟨hcolumn, hfits.column⟩, rfl⟩

theorem Position.ofMembers?_eq_some_iff {p : Position} :
    ofMembers? members = some p ↔
      ∃ value, members.get? "position" = some value ∧ ofJson? value = some p :=
  Option.bind_eq_some_iff

/-! ### References, literals and parameters -/

theorem Reference.ofMembers?_eq_some_iff {r : Reference} :
    ofMembers? members = some r ↔
      members.get? "value" = some (.string r.name) ∧
        Position.ofMembers? members = some r.position := by
  obtain ⟨name, position⟩ := r
  simp [ofMembers?, Option.bind_eq_some_iff]

theorem Literal.ofMembers?_eq_some_iff {l : Literal} :
    ofMembers? spelling members = some l ↔
      (∃ value, members.get? "type" = some value ∧
        LiteralKind.ofJson? spelling value = some l.kind) ∧
      members.get? "value" = some (.string l.text) ∧
        Position.ofMembers? members = some l.position := by
  obtain ⟨kind, text, position⟩ := l
  simp [ofMembers?, Option.bind_eq_some_iff]

theorem Parameter.ofJson?_eq_some_iff {p : Parameter} :
    ofJson? j = some p ↔ ∃ members, j.members? names = some members ∧
      members.get? "name" = some (.string p.name) ∧
        members.get? "type" = some (.string p.type) ∧
          Position.ofMembers? members = some p.position := by
  obtain ⟨name, type, position⟩ := p
  simp [ofJson?, Option.bind_eq_some_iff]

theorem Parameter.listOfJson?_eq_some_iff {ps : List Parameter} :
    listOfJson? j = some ps ↔ ∃ items, j = .array items ∧
      List.Forall₂ (fun item p => ofJson? item = some p) items ps := by
  cases j with
  | array items => simp [listOfJson?, mapM_eq_some_iff]
  | _ => simp [listOfJson?]

/-! ### Values -/

theorem Value.listOfJson?_eq_some_iff {vs : List Value} :
    listOfJson? spelling j = some vs ↔ ∃ items, j = .array items ∧
      List.Forall₂ (fun item v => ofJson? spelling item = some v) items vs := by
  cases j with
  | array items => simp [listOfJson?, Json.readAll_eq_mapM, mapM_eq_some_iff]
  | _ => simp [listOfJson?]

theorem Call.ofMembers?_eq_some_iff {c : Call Value} :
    ofMembers? spelling members = some c ↔
      members.get? "name" = some (.string c.name) ∧
        members.get? "internal" = some (.bool c.internal) ∧
          (∃ value, members.get? "arguments" = some value ∧
            Value.listOfJson? spelling value = some c.arguments) ∧
            Position.ofMembers? members = some c.position := by
  obtain ⟨name, internal, arguments, position⟩ := c
  rw [ofMembers?]
  simp only [bind, Option.bind_eq_some_iff, Members.string?_eq_some_iff, Members.bool?_eq_some_iff]
  constructor
  · rintro ⟨name, hname, internal, hinternal, hrest⟩
    split at hrest
    · next value hvalue =>
      obtain ⟨arguments, harguments, position, hposition, h⟩ := by
        simpa only [Option.bind_eq_some_iff] using hrest
      cases h
      exact ⟨hname, hinternal, ⟨value, hvalue, harguments⟩, hposition⟩
    · cases hrest
  · rintro ⟨hname, hinternal, ⟨value, hvalue, harguments⟩, hposition⟩
    refine ⟨name, hname, internal, hinternal, ?_⟩
    split
    · next value' hvalue' =>
      obtain rfl := Option.some.inj (hvalue.symm.trans hvalue')
      simp [harguments, hposition]
    · next hnone =>
      rw [hvalue] at hnone
      cases hnone

theorem Value.ofTagged?_eq_some_iff {tag : String} {v : Value} :
    ofTagged? tag members = some v ↔
      (tag = "invoke" ∧ ∃ c, v = .call c ∧ Call.ofMembers? .lenient members = some c) ∨
      (tag = "reference" ∧ ∃ r, v = .reference r ∧ Reference.ofMembers? members = some r) ∨
      (tag = "literal" ∧ ∃ l, v = .literal l ∧ Literal.ofMembers? .lenient members = some l) := by
  rw [ofTagged?.eq_def]
  split
  · simp [@eq_comm _ v, and_comm]
  · simp [@eq_comm _ v, and_comm]
  · simp [@eq_comm _ v, and_comm]
  · next hinvoke hreference hliteral =>
    constructor
    · rintro ⟨⟩
    · rintro (⟨h, -⟩ | ⟨h, -⟩ | ⟨h, -⟩)
      · exact (hinvoke h).elim
      · exact (hreference h).elim
      · exact (hliteral h).elim

theorem Value.ofJson?_eq_some_iff {v : Value} :
    ofJson? spelling j = some v ↔ ∃ (members : Members) (tag : String),
      j.members? names = some members ∧ members.tag? "element" tags spelling = some tag ∧
        ofTagged? tag members = some v := by
  rw [ofJson?, Json.readMembers?_eq_some_iff]
  simp [Option.bind_eq_some_iff]

theorem Assignment.ofMembers?_eq_some_iff {a : Assignment} :
    ofMembers? spelling members = some a ↔
      members.get? "name" = some (.string a.name) ∧
        (∃ value, members.get? "value" = some value ∧
          Value.ofJson? spelling value = some a.value) ∧
          Position.ofMembers? members = some a.position := by
  obtain ⟨name, value, position⟩ := a
  simp [ofMembers?, Option.bind_eq_some_iff]

/-! ### Elements -/

theorem Element.listOfJson_eq_ok_iff {es : List Element} :
    listOfJson spelling j = .ok es ↔ ∃ items, j = .array items ∧
      List.Forall₂ (fun item e => ofJson spelling item = .ok e) items es := by
  cases j with
  | array items => simp [listOfJson, Json.readAll_eq_mapM, mapM_eq_ok_iff]
  | _ => simp [listOfJson]

theorem Function.ofJson_eq_ok_iff {f : Function Element} :
    ofJson spelling j = .ok f ↔ ∃ members, j.members? names = some members ∧
      members.get? "returnType" = some (.string f.returnType) ∧
        (∃ value, members.get? "arguments" = some value ∧
          Parameter.listOfJson? value = some f.parameters) ∧
          ∃ value, members.get? "elements" = some value ∧
            Element.listOfJson spelling value = .ok f.body := by
  obtain ⟨returnType, parameters, body⟩ := f
  rw [ofJson]
  apply Json.readParts_eq_ok_iff_of_complete
  intro parts
  simp only [bind_eq_ok_iff, Parts.Order.both_eq_ok_iff, Parts.ifComplete_eq_ok_iff,
    orMalformed_eq_ok_iff, Option.bind_eq_bind, Option.bind_eq_some_iff]
  constructor
  · rintro ⟨⟨⟨_, _⟩, _⟩, ⟨⟨_, hps, _, hes, hpair⟩, hreturn⟩, hcomplete, _, rfl, _, rfl, _, rfl, h⟩
    cases hpair
    cases h
    exact ⟨hcomplete, by simpa [Json.string?_eq_some_iff] using hreturn, by simpa using hps,
      by simpa using hes⟩
  · rintro ⟨hcomplete, hreturn, hps, hes⟩
    exact ⟨((some parameters, some body), some returnType),
      ⟨⟨_, by simpa using hps, _, by simpa using hes, rfl⟩,
        by simpa [Json.string?_eq_some_iff] using hreturn⟩, hcomplete,
      returnType, rfl, parameters, rfl, body, rfl, rfl⟩

theorem ForHeader.ofJson_eq_ok_iff {h : ForHeader Element} :
    ofJson spelling j = .ok h ↔ ∃ members, j.members? names = some members ∧
      (∃ value, members.get? "initial" = some value ∧
        Element.ofJson spelling value = .ok h.initial) ∧
      (∃ value, members.get? "condition" = some value ∧
        Value.ofJson? spelling value = some h.condition) ∧
      ∃ value, members.get? "repeated" = some value ∧
        Element.ofJson spelling value = .ok h.repeated := by
  obtain ⟨initial, condition, repeated⟩ := h
  rw [ofJson]
  apply Json.readParts_eq_ok_iff_of_complete
  intro parts
  simp only [bind_eq_ok_iff, Parts.Order.both_eq_ok_iff, Parts.ifComplete_eq_ok_iff,
    orMalformed_eq_ok_iff, Option.bind_eq_bind, Option.bind_eq_some_iff]
  constructor
  · rintro ⟨⟨_, _⟩, ⟨hc, hi⟩, _, hr, hcomplete, _, rfl, _, rfl, _, rfl, h⟩
    cases h
    exact ⟨hcomplete, by simpa using hi, by simpa using hc, by simpa using hr⟩
  · rintro ⟨hcomplete, hi, hc, hr⟩
    exact ⟨(some condition, some initial), ⟨by simpa using hc, by simpa using hi⟩, some repeated,
      by simpa using hr, hcomplete, initial, rfl, condition, rfl, repeated, rfl, rfl⟩

/-! ### Declarations -/

/-- How the member that holds a body or a value is read. A body goes first. -/
def ReadAs (value? : Option Json) : Option (Function Element ⊕ Value) → Prop
  | none => value? = none ∨ value? = some .null
  | some (.inl f) => ∃ value, value? = some value ∧ Function.ofJson .lenient value = .ok f
  | some (.inr v) => ∃ value, value? = some value ∧
      (∀ f, Function.ofJson .lenient value ≠ .ok f) ∧
        Value.ofJson? .lenient value = some v

/-- The flag and the type tell which binding has the parts. -/
theorem Binding.ofParts_eq_ok_iff {type : String} {constant : Bool}
    {part? : Option (Function Element ⊕ Value)} {d : Declaration Element} :
    ofParts name type constant part? = .ok d.binding ↔
      constant = d.isConstant ∧ type = d.typeName ∧ part? = d.binding.part? := by
  obtain ⟨declared, exported, position, binding⟩ := d
  rcases part? with _ | f | v
  · cases constant <;> rcases binding with _ | _ | ⟨_, _ | _⟩ <;>
      simp [ofParts, Declaration.isConstant, Declaration.typeName, Binding.part?]
  · by_cases hfunction : constant = true ∧ type = functionType
    · obtain ⟨rfl, rfl⟩ := hfunction
      rcases binding with _ | _ | ⟨_, _ | _⟩ <;>
        simp [ofParts, Declaration.isConstant, Declaration.typeName, Binding.part?]
    · have herror : (ofParts name type constant (some (.inl f)) :
          Except ReadError (Binding Element)) = .error (.bodyOutsideFunction name) :=
        if_neg hfunction
      rw [herror]
      constructor
      · rintro ⟨⟩
      · rintro ⟨hconstant, htype, hpart⟩
        rcases binding with f | ⟨type, v⟩ | ⟨type, _ | v⟩
        · exact (hfunction ⟨hconstant, htype⟩).elim
        · cases hpart
        · cases hpart
        · cases hpart
  · cases constant <;> rcases binding with _ | _ | ⟨_, _ | _⟩ <;>
      simp [ofParts, Declaration.isConstant, Declaration.typeName, Binding.part?]

def partOfJson : Json → Except ReadError (Option (Function Element ⊕ Value))
  | .null => .ok none
  | value =>
    match Function.ofJson .lenient value with
    | .ok f => .ok (some (.inl f))
    | .error _ => orMalformed ((Value.ofJson? .lenient value).map fun v => some (.inr v))

private theorem partOfJson_eq_ok_iff {part? : Option (Function Element ⊕ Value)} :
    partOfJson j = .ok part? ↔ ReadAs (some j) part? := by
  by_cases hnull : j = .null
  · subst hnull
    rcases part? with _ | f | v
    · simp [partOfJson, ReadAs]
    · simp [partOfJson, ReadAs, Function.ofJson_eq_ok_iff]
    · simp [partOfJson, ReadAs, Value.ofJson?_eq_some_iff]
  · rw [partOfJson.eq_2 j hnull]
    cases hfunction : Function.ofJson .lenient j with
    | ok g =>
      rcases part? with _ | f | v
      · simp [ReadAs, hnull]
      · simp [ReadAs, hfunction]
      · simp [ReadAs, hfunction]
    | error e =>
      rcases part? with _ | f | v
      · simp [ReadAs, hnull]
      · simp [ReadAs, hfunction]
      · simp [ReadAs, hfunction]

private theorem readAs_iff {part? : Option (Function Element ⊕ Value)} :
    ReadAs (members.get? "value") part? ↔
      ∃ read?, members.readIfPresent "value" (fun value _ => partOfJson value) = .ok read? ∧
        read?.join = part? := by
  simp only [Members.readIfPresent_eq_ok_iff]
  cases members.get? "value" with
  | none => rcases part? with _ | f | v <;> simp [ReadAs]
  | some value =>
    rw [← partOfJson_eq_ok_iff]
    constructor
    · exact fun h => ⟨some part?, .inr ⟨value, part?, rfl, h, rfl⟩, rfl⟩
    · rintro ⟨read?, ⟨hnone, -⟩ | ⟨_, a, hvalue, ha, rfl⟩, rfl⟩
      · cases hnone
      · obtain rfl := Option.some.inj hvalue
        exact ha

private theorem Declaration.ofMembers_eq (members : Members) :
    ofMembers members = do
      let read? ← members.readIfPresent "value" fun value _ => partOfJson value
      let name ← orMalformed (members.string? "name")
      let constant ← orMalformed (members.bool? "constant")
      let exported ← orMalformed (members.bool? "exported")
      let type ← orMalformed (members.string? "type")
      let position ← orMalformed (Position.ofMembers? members)
      let binding ← Binding.ofParts name type constant read?.join
      return ⟨name, exported, position, binding⟩ := by
  rw [ofMembers]
  congr 1
  apply congrArg (members.readIfPresent "value")
  funext value hvalue
  cases value <;> rfl

theorem Declaration.ofMembers_eq_ok_iff {d : Declaration Element} :
    ofMembers members = .ok d ↔
      members.get? "name" = some (.string d.name) ∧
      members.get? "constant" = some (.bool d.isConstant) ∧
      members.get? "exported" = some (.bool d.exported) ∧
      members.get? "type" = some (.string d.typeName) ∧
      Position.ofMembers? members = some d.position ∧
      ReadAs (members.get? "value") d.binding.part? := by
  rw [ofMembers_eq]
  simp only [bind_eq_ok_iff, orMalformed_eq_ok_iff, Members.string?_eq_some_iff,
    Members.bool?_eq_some_iff]
  constructor
  · rintro ⟨read?, hread, name, hname, constant, hconstant, exported, hexported, type, htype,
      position, hposition, binding, hbinding, h⟩
    cases h
    obtain ⟨rfl, rfl, hpart⟩ :=
      (@Binding.ofParts_eq_ok_iff name type constant _ ⟨name, exported, position, binding⟩).1
        hbinding
    exact ⟨hname, hconstant, hexported, htype, hposition, readAs_iff.2 ⟨read?, hread, hpart⟩⟩
  · rintro ⟨hname, hconstant, hexported, htype, hposition, hpart⟩
    obtain ⟨read?, hread, hjoin⟩ := readAs_iff.1 hpart
    exact ⟨read?, hread, _, hname, _, hconstant, _, hexported, _, htype, _, hposition, d.binding,
      Binding.ofParts_eq_ok_iff.2 ⟨rfl, rfl, hjoin⟩, rfl⟩

/-! ### Statements -/

structure Statement.ReadFrom (spelling : Spelling) (members : Members)
    (s : Statement Element) : Prop where
  tag : members.tag? "type" tags spelling = some s.tag
  condition : ∀ c, s.condition? = some c → ∃ value, members.get? "condition" = some value ∧
    Value.ofJson? .lenient value = some c
  header : ∀ h, s.header? = some h → ∃ value, members.get? "expression" = some value ∧
    ForHeader.ofJson .lenient value = .ok h
  body : ∃ value, members.get? "elements" = some value ∧
    Element.listOfJson .lenient value = .ok s.body
  position : Position.ofMembers? members = some s.position

private theorem Statement.readFrom_of_ofParts {parts : Parts} {s : Statement Element}
    (h : ofParts spelling parts = .ok s) :
    parts.complete = true ∧ ReadFrom spelling parts.members s := by
  rw [ofParts.eq_def] at h
  dsimp only at h
  split at h
  · next htag =>
    simp only [bind_eq_ok_iff, Parts.ifComplete_eq_ok_iff, orMalformed_eq_ok_iff,
      Option.bind_eq_bind, Option.bind_eq_some_iff] at h
    obtain ⟨_, hc, _, hbody, hcomplete, c, rfl, body, rfl, position, hposition, ⟨⟩⟩ := h
    have hc := Members.readIfPresent_eq_some_iff.1 hc
    have hbody := Members.readIfPresent_eq_some_iff.1 hbody
    exact ⟨hcomplete, htag, by simpa [condition?] using hc, by simp [header?], hbody, hposition⟩
  · next htag =>
    simp only [bind_eq_ok_iff, Parts.ifComplete_eq_ok_iff, orMalformed_eq_ok_iff,
      Option.bind_eq_bind, Option.bind_eq_some_iff] at h
    obtain ⟨_, hbody, hcomplete, body, rfl, position, hposition, ⟨⟩⟩ := h
    have hbody := Members.readIfPresent_eq_some_iff.1 hbody
    exact ⟨hcomplete, htag, by simp [condition?], by simp [header?], hbody, hposition⟩
  · next htag =>
    simp only [bind_eq_ok_iff, Parts.Order.both_eq_ok_iff, Parts.ifComplete_eq_ok_iff,
      orMalformed_eq_ok_iff, Option.bind_eq_bind, Option.bind_eq_some_iff] at h
    obtain ⟨⟨_, _⟩, ⟨hbody, hh⟩, hcomplete, header, rfl, body, rfl, position, hposition, ⟨⟩⟩ := h
    have hh := Members.readIfPresent_eq_some_iff.1 hh
    have hbody := Members.readIfPresent_eq_some_iff.1 hbody
    exact ⟨hcomplete, htag, by simp [condition?], by simpa [header?] using hh, hbody, hposition⟩
  · next htag =>
    simp only [bind_eq_ok_iff, Parts.ifComplete_eq_ok_iff, orMalformed_eq_ok_iff,
      Option.bind_eq_bind, Option.bind_eq_some_iff] at h
    obtain ⟨_, hc, _, hbody, hcomplete, c, rfl, body, rfl, position, hposition, ⟨⟩⟩ := h
    have hc := Members.readIfPresent_eq_some_iff.1 hc
    have hbody := Members.readIfPresent_eq_some_iff.1 hbody
    exact ⟨hcomplete, htag, by simpa [condition?] using hc, by simp [header?], hbody, hposition⟩
  · cases h

private theorem Statement.ofParts_of_readFrom {parts : Parts} {s : Statement Element}
    (hcomplete : parts.complete = true) (h : ReadFrom spelling parts.members s) :
    ofParts spelling parts = .ok s := by
  obtain ⟨htag, hc, hh, hbody, hposition⟩ := h
  rw [ofParts.eq_def]
  dsimp only
  have hbody := Members.readIfPresent_eq_some_iff.2 hbody
  have hcondition : ∀ c, s.condition? = some c →
      (parts.members.readIfPresent "condition" fun value _ =>
        orMalformed (Value.ofJson? .lenient value)) = .ok (some c) :=
    fun c h => by simpa using hc c h
  have hheader : ∀ header, s.header? = some header →
      (parts.members.readIfPresent "expression" fun value _ =>
        ForHeader.ofJson .lenient value) = .ok (some header) :=
    fun header h => by simpa using hh header h
  simp only [htag]
  cases s with
  | ifThen c body position =>
    simp only [tag, hcondition c rfl, hbody, hposition, Parts.ifComplete, if_pos hcomplete]
    rfl
  | otherwise body position =>
    simp only [tag, hbody, hposition, Parts.ifComplete, if_pos hcomplete]
    rfl
  | forLoop header body position =>
    have hboth := (@Parts.Order.both_eq_ok_iff _ _ parts.order _ _ (some body, some header)).2
      ⟨hbody, hheader header rfl⟩
    simp only [tag, hboth, hposition, Parts.ifComplete, if_pos hcomplete]
    rfl
  | whileLoop c body position =>
    simp only [tag, hcondition c rfl, hbody, hposition, Parts.ifComplete, if_pos hcomplete]
    rfl

theorem Statement.ofParts_eq_ok_iff {parts : Parts} {s : Statement Element} :
    ofParts spelling parts = .ok s ↔
      parts.complete = true ∧ ReadFrom spelling parts.members s :=
  ⟨readFrom_of_ofParts, fun ⟨hcomplete, h⟩ => ofParts_of_readFrom hcomplete h⟩

/-- What the members of an element have to be read as, beside its tag. -/
def Element.ReadFrom (tag : String) (members : Members) : Element → Prop
  | .declaration d => tag = "declaration" ∧ Declaration.ofMembers members = .ok d
  | .assignment a => tag = "assignment" ∧ Assignment.ofMembers? .lenient members = some a
  | .value v => Value.ofTagged? tag members = some v
  | .statement s => tag = "statement" ∧ Statement.ReadFrom .lenient members s

theorem Element.ofJson_eq_ok_iff {e : Element} :
    ofJson spelling j = .ok e ↔ ∃ (members : Members) (tag : String),
      j.members? names = some members ∧ members.tag? "element" tags spelling = some tag ∧
        ReadFrom tag members e := by
  simp only [exists_and_left]
  rw [ofJson]
  apply Json.readParts_eq_ok_iff_of_complete
  intro parts
  constructor
  · intro h
    split at h
    · next htag =>
      obtain ⟨hcomplete, h⟩ := Parts.ifComplete_eq_ok_iff.1 h
      obtain ⟨d, hd, rfl⟩ := map_eq_ok_iff.1 h
      exact ⟨hcomplete, _, htag, rfl, hd⟩
    · next htag =>
      obtain ⟨hcomplete, h⟩ := Parts.ifComplete_eq_ok_iff.1 h
      obtain ⟨a, ha, rfl⟩ := by simpa using h
      exact ⟨hcomplete, _, htag, rfl, ha⟩
    · next htag =>
      obtain ⟨s, hs, rfl⟩ := map_eq_ok_iff.1 h
      obtain ⟨hcomplete, hs⟩ := Statement.ofParts_eq_ok_iff.1 hs
      exact ⟨hcomplete, _, htag, rfl, hs⟩
    · next tag _ _ _ htag =>
      obtain ⟨hcomplete, h⟩ := Parts.ifComplete_eq_ok_iff.1 h
      obtain ⟨v, hv, rfl⟩ := by simpa using h
      exact ⟨hcomplete, tag, htag, hv⟩
    · cases h
  · rintro ⟨hcomplete, tag, htag, hread⟩
    rw [htag]
    cases e with
    | declaration d =>
      obtain ⟨rfl, hd⟩ := hread
      simp [hcomplete, hd]
    | assignment a =>
      obtain ⟨rfl, ha⟩ := hread
      simp [hcomplete, ha]
    | statement s =>
      obtain ⟨rfl, hs⟩ := hread
      simp [Statement.ofParts_eq_ok_iff, hcomplete, hs]
    | value v =>
      have hread : Value.ofTagged? tag parts.members = some v := hread
      rcases Value.ofTagged?_eq_some_iff.1 hread with ⟨rfl, -⟩ | ⟨rfl, -⟩ | ⟨rfl, -⟩
      · simp [hcomplete, hread]
      · simp [hcomplete, hread]
      · simp [hcomplete, hread]

theorem Statement.ofJson_eq_ok_iff {s : Statement Element} :
    ofJson spelling j = .ok s ↔
      ∃ members, j.members? names = some members ∧ ReadFrom spelling members s :=
  Json.readParts_eq_ok_iff_of_complete fun _ => ofParts_eq_ok_iff

/-! ### Roots -/

theorem Root.ofJson_eq_ok_iff {root : Root} :
    ofJson j = .ok root ↔ ∃ members, j.members? names = some members ∧
      (∃ value, members.get? "elements" = some value ∧
        Element.listOfJson .strict value = .ok root.elements) ∧
      (match root.file with
        | none => members.get? "file" = none ∨ members.get? "file" = some .null
        | some file => members.get? "file" = some (.string file)) := by
  obtain ⟨file, elements⟩ := root
  apply Json.readParts_eq_ok_iff_of_complete
  intro parts
  simp only [bind_eq_ok_iff, Parts.Order.both_eq_ok_iff, Parts.ifComplete_eq_ok_iff,
    orMalformed_eq_ok_iff, Option.bind_eq_bind, Option.bind_eq_some_iff]
  constructor
  · rintro ⟨⟨_, found⟩, ⟨hes, hfile⟩, hcomplete, _, rfl, h⟩
    cases h
    refine ⟨hcomplete, Members.readIfPresent_eq_some_iff.1 hes, ?_⟩
    split at hfile
    · next hnone =>
      cases hfile
      exact .inl hnone
    · next hnull =>
      cases hfile
      exact .inr hnull
    · next value _ hvalue =>
      obtain ⟨s, hs, rfl⟩ := by simpa using hfile
      obtain rfl := Json.string?_eq_some_iff.1 hs
      exact hvalue
  · rintro ⟨hcomplete, hes, hfile⟩
    refine ⟨(some elements, file), ⟨Members.readIfPresent_eq_some_iff.2 hes, ?_⟩, hcomplete,
      elements, rfl, rfl⟩
    cases file with
    | none => rcases hfile with h | h <;> rw [h]
    | some file =>
      rw [hfile]
      rfl

theorem Declaration.ofJson_eq_ok_iff {d : Declaration Element} :
    ofJson j = .ok d ↔ ∃ members, j.members? names = some members ∧ ofMembers members = .ok d :=
  Json.readParts_eq_ok_iff_of_complete fun _ => Parts.ifComplete_eq_ok_iff

end Script
