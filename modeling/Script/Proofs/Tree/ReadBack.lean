import Script.Proofs.Tree.Accepted
import Script.Proofs.Tree.Kinds
/-!
# Written trees are read again

Whatever is written for a node is read as that node, in either spelling, as long as its lines and
columns are words of 64 bits. A reader finds its members in what is written even if others stand
before them, as the tag of an element does.
-/

namespace Script

variable {spelling : Spelling} {members : Members}

namespace Members

def Extends (members written : Members) : Prop :=
  ∀ name value, written.get? name = some value → members.get? name = some value

private theorem Extends.refl (members : Members) : members.Extends members := fun _ _ => id

theorem Extends.cons {key : String} {written : Members} (hnew : written.get? key = none)
    (tag : Json) : Extends ((key, tag) :: written) written := by
  intro name value h
  have hname : key ≠ name := by
    rintro rfl
    rw [hnew] at h
    cases h
  rw [get?, if_neg hname, h]

theorem tag?_of_get?_eq_string {name tag : String} {tags : List String}
    (h : members.get? name = some (.string tag)) : members.tag? name tags spelling = some tag := by
  rw [tag?, h]
  cases spelling <;> rfl

end Members

/-! ### Nodes without nodes in them -/

theorem Position.ofJson?_toJson {p : Position} (hfits : p.Fits) : ofJson? p.toJson = some p :=
  ofJson?_eq_some_iff.2 ⟨hfits, _, rfl, rfl, rfl⟩

theorem Position.ofMembers?_of_get? {p : Position} (h : members.get? "position" = some p.toJson)
    (hfits : p.Fits) : ofMembers? members = some p :=
  ofMembers?_eq_some_iff.2 ⟨_, h, ofJson?_toJson hfits⟩

theorem Reference.ofMembers?_of_extends {r : Reference} (h : members.Extends r.members)
    (hfits : r.position.Fits) : ofMembers? members = some r :=
  ofMembers?_eq_some_iff.2
    ⟨h "value" _ rfl, Position.ofMembers?_of_get? (h "position" _ rfl) hfits⟩

private theorem LiteralKind.ofJson?_name (spelling : Spelling) (kind : LiteralKind) :
    ofJson? spelling (.string kind.name) = some kind :=
  ofName?_name kind

theorem Literal.ofMembers?_of_extends {l : Literal} (h : members.Extends l.members)
    (hfits : l.position.Fits) : ofMembers? spelling members = some l :=
  ofMembers?_eq_some_iff.2
    ⟨⟨_, h "type" _ rfl, LiteralKind.ofJson?_name spelling l.kind⟩, h "value" _ rfl,
      Position.ofMembers?_of_get? (h "position" _ rfl) hfits⟩

theorem Parameter.ofJson?_toJson {p : Parameter} (hfits : p.position.Fits) :
    ofJson? p.toJson = some p :=
  ofJson?_eq_some_iff.2 ⟨_, rfl, rfl, rfl, Position.ofMembers?_of_get? rfl hfits⟩

/-! ### Values -/

theorem Call.ofMembers?_of_extends {c : Call Value} (h : members.Extends (Call.members c))
    (hfits : c.position.Fits)
    (harguments : ∀ v ∈ c.arguments, Value.ofJson? spelling v.toJson = some v) :
    ofMembers? spelling members = some c := by
  obtain ⟨name, internal, arguments, position⟩ := c
  refine ofMembers?_eq_some_iff.2 ⟨h "name" _ rfl, h "internal" _ rfl,
    ⟨_, h "arguments" _ rfl, ?_⟩, Position.ofMembers?_of_get? (h "position" _ rfl) hfits⟩
  rw [Value.listOfJson?_eq_some_iff, Value.listToJson_eq_map]
  exact ⟨_, rfl, List.forall₂_map_left_iff.2 (List.forall₂_same.2 harguments)⟩

private theorem Call.get?_element_members (c : Call Value) :
    (Call.members c).get? "element" = none := by
  cases c
  rfl

theorem Value.ofJson?_toJson {v : Value} (hfits : ∀ p ∈ v.positions, p.Fits)
    (spelling : Spelling) : ofJson? spelling v.toJson = some v := by
  induction v using Value.induction generalizing spelling with
  | step value ih =>
    rw [ofJson?_eq_some_iff]
    cases value with
    | call c =>
      obtain ⟨hposition, harguments⟩ := Call.forall_mem_positions_iff.1 hfits
      refine ⟨_, "invoke", rfl, Members.tag?_of_get?_eq_string rfl,
        ofTagged?_eq_some_iff.2 (.inl ⟨rfl, c, rfl, ?_⟩)⟩
      exact Call.ofMembers?_of_extends (.cons (Call.get?_element_members c) _) hposition
        fun v hv => ih v hv (harguments v hv) .lenient
    | reference r =>
      exact ⟨_, "reference", rfl, Members.tag?_of_get?_eq_string rfl,
        ofTagged?_eq_some_iff.2 (.inr (.inl ⟨rfl, r, rfl,
          Reference.ofMembers?_of_extends (.cons rfl _) (hfits _ List.mem_cons_self)⟩))⟩
    | literal l =>
      exact ⟨_, "literal", rfl, Members.tag?_of_get?_eq_string rfl,
        ofTagged?_eq_some_iff.2 (.inr (.inr ⟨rfl, l, rfl,
          Literal.ofMembers?_of_extends (.cons rfl _) (hfits _ List.mem_cons_self)⟩))⟩

theorem Assignment.ofMembers?_of_extends {a : Assignment} (h : members.Extends a.members)
    (hfits : ∀ p ∈ a.positions, p.Fits) : ofMembers? spelling members = some a := by
  obtain ⟨hposition, hvalue⟩ := List.forall_mem_cons.1 hfits
  exact ofMembers?_eq_some_iff.2
    ⟨h "name" _ rfl, ⟨_, h "value" _ rfl, Value.ofJson?_toJson hvalue spelling⟩,
      Position.ofMembers?_of_get? (h "position" _ rfl) hposition⟩

/-! ### Elements -/

def Element.ReadBack (e : Element) : Prop :=
  (∀ p ∈ e.positions, p.Fits) → ∀ spelling, ofJson spelling e.toJson = .ok e

theorem Element.listOfJson_listToJson {es : List Element} (hes : ∀ e ∈ es, e.ReadBack)
    (hfits : ∀ e ∈ es, ∀ p ∈ e.positions, p.Fits) :
    listOfJson spelling (.array (listToJson es)) = .ok es := by
  rw [listOfJson_eq_ok_iff, listToJson_eq_map]
  exact ⟨_, rfl, List.forall₂_map_left_iff.2
    (List.forall₂_same.2 fun e he => hes e he (hfits e he) spelling)⟩

theorem Function.ofJson_toJson {f : Function Element} (hbody : ∀ e ∈ f.body, e.ReadBack)
    (hfits : ∀ p ∈ Function.positions f, p.Fits) :
    ofJson spelling (Function.toJson f) = .ok f := by
  obtain ⟨hparameters, helements⟩ := forall_mem_positions_iff.1 hfits
  obtain ⟨returnType, parameters, body⟩ := f
  refine ofJson_eq_ok_iff.2 ⟨_, rfl, rfl, ⟨_, rfl, ?_⟩, _, rfl,
    Element.listOfJson_listToJson hbody helements⟩
  rw [Parameter.listOfJson?_eq_some_iff]
  exact ⟨_, rfl, List.forall₂_map_left_iff.2
    (List.forall₂_same.2 fun p hp => Parameter.ofJson?_toJson (hparameters p hp))⟩

theorem ForHeader.ofJson_toJson {h : ForHeader Element} (hinitial : h.initial.ReadBack)
    (hrepeated : h.repeated.ReadBack) (hfits : ∀ p ∈ ForHeader.positions h, p.Fits) :
    ofJson spelling (ForHeader.toJson h) = .ok h := by
  obtain ⟨hi, hc, hr⟩ := forall_mem_positions_iff.1 hfits
  obtain ⟨initial, condition, repeated⟩ := h
  exact ofJson_eq_ok_iff.2 ⟨_, rfl, ⟨_, rfl, hinitial hi spelling⟩,
    ⟨_, rfl, Value.ofJson?_toJson hc spelling⟩, _, rfl, hrepeated hr spelling⟩

private theorem Statement.get?_element_members (s : Statement Element) :
    (Statement.members s).get? "element" = none := by
  cases s <;> rfl

theorem Statement.readFrom_of_extends {s : Statement Element}
    (hchildren : ∀ e ∈ (Element.statement s).children, e.ReadBack)
    (h : members.Extends (Statement.members s)) (hfits : ∀ p ∈ Statement.positions s, p.Fits) :
    ReadFrom spelling members s := by
  obtain ⟨hposition, hcondition, hheader, hbody⟩ := forall_mem_positions_iff.1 hfits
  have helements : Element.listOfJson .lenient (.array (Element.listToJson s.body)) = .ok s.body :=
    Element.listOfJson_listToJson (fun e he => hchildren e (Element.mem_children_of_body he)) hbody
  refine ⟨Members.tag?_of_get?_eq_string (h "type" _ ?_), fun c hc => ?_,
    fun header hh => ?_, ⟨_, h "elements" _ ?_, helements⟩,
    Position.ofMembers?_of_get? (h "position" _ ?_) hposition⟩
  · cases s <;> rfl
  · refine ⟨_, h "condition" _ ?_, Value.ofJson?_toJson (hcondition c hc) .lenient⟩
    cases s <;> cases hc <;> rfl
  · obtain ⟨hi, hr⟩ := Element.mem_children_of_header hh
    refine ⟨_, h "expression" _ ?_,
      ForHeader.ofJson_toJson (hchildren _ hi) (hchildren _ hr) (hheader header hh)⟩
    cases s <;> cases hh
    rfl
  · cases s <;> rfl
  · cases s <;> rfl

/-- A value is not mistaken for the body of a function. -/
theorem Function.ofJson_value_ne_ok (v : Value) (f : Function Element) :
    ofJson spelling v.toJson ≠ .ok f := by
  intro h
  -- No value has a member `returnType`.
  obtain ⟨members, hmembers, hreturn, -⟩ := ofJson_eq_ok_iff.1 h
  rcases v with ⟨_, _, _, _⟩ | _ | _ <;> cases hmembers <;> cases hreturn

theorem Declaration.members_eq_flat (d : Declaration Element) :
    Declaration.members d = flat d.name d.typeName d.isConstant d.exported
      (d.binding.part?.map (Sum.elim Function.toJson Value.toJson)) d.position := by
  obtain ⟨name, exported, position, binding⟩ := d
  rcases binding with f | ⟨type, v⟩ | ⟨type, _ | v⟩ <;> rfl

private theorem Declaration.get?_element_members (d : Declaration Element) :
    (Declaration.members d).get? "element" = none := by
  rw [members_eq_flat]
  cases d.binding.part? <;> rfl

private theorem Declaration.get?_value_members (d : Declaration Element) :
    (Declaration.members d).get? "value" =
      d.binding.part?.map (Sum.elim Function.toJson Value.toJson) := by
  rw [members_eq_flat]
  cases d.binding.part? <;> rfl

/-- A declaration without a value is read again only where no other member is taken for one. -/
theorem Declaration.ofMembers_of_extends {d : Declaration Element}
    (hchildren : ∀ e ∈ (Element.declaration d).children, e.ReadBack)
    (h : members.Extends (Declaration.members d))
    (hvalue? : members.get? "value" = (Declaration.members d).get? "value")
    (hfits : ∀ p ∈ Declaration.positions d, p.Fits) : ofMembers members = .ok d := by
  obtain ⟨hposition, hfunction, hvalue⟩ := forall_mem_positions_iff.1 hfits
  rw [members_eq_flat] at h
  refine ofMembers_eq_ok_iff.2 ⟨h "name" _ rfl, h "constant" _ rfl, h "exported" _ rfl,
    h "type" _ rfl, Position.ofMembers?_of_get? (h "position" _ ?_) hposition, ?_⟩
  · cases d.binding.part? <;> rfl
  · rw [hvalue?, get?_value_members]
    rcases hpart : d.binding.part? with _ | f | v
    · exact .inl rfl
    · exact ⟨_, rfl, Function.ofJson_toJson
        (fun e he => hchildren e (Element.mem_children_of_function hpart he)) (hfunction f hpart)⟩
    · exact ⟨_, rfl, Function.ofJson_value_ne_ok v, Value.ofJson?_toJson (hvalue v hpart) .lenient⟩

private theorem Value.exists_tag (v : Value) : ∃ (members : Members) (tag : String),
    v.toJson = .object members ∧ members.get? "element" = some (.string tag) := by
  cases v <;> exact ⟨_, _, rfl, rfl⟩

theorem Element.readBack (e : Element) : e.ReadBack := by
  induction e using Element.induction with
  | step element ih =>
    intro hfits spelling
    rw [ofJson_eq_ok_iff]
    cases element with
    | declaration d =>
      exact ⟨_, "declaration", rfl, Members.tag?_of_get?_eq_string rfl, rfl,
        Declaration.ofMembers_of_extends ih (.cons (Declaration.get?_element_members d) _) rfl hfits⟩
    | assignment a =>
      exact ⟨_, "assignment", rfl, Members.tag?_of_get?_eq_string rfl, rfl,
        Assignment.ofMembers?_of_extends (.cons rfl _) hfits⟩
    | value v =>
      -- The tag of a value is a name, so it does not matter which tags may stand here.
      obtain ⟨members, tag, hmembers, htag⟩ := v.exists_tag
      obtain ⟨_, _, h, htag', hread⟩ :=
        Value.ofJson?_eq_some_iff.1 (Value.ofJson?_toJson hfits spelling)
      rw [hmembers] at h
      obtain rfl := Option.some.inj h
      obtain rfl := Option.some.inj ((Members.tag?_of_get?_eq_string htag).symm.trans htag')
      exact ⟨members, tag, congrArg _ hmembers, Members.tag?_of_get?_eq_string htag, hread⟩
    | statement s =>
      exact ⟨_, "statement", rfl, Members.tag?_of_get?_eq_string rfl, rfl,
        Statement.readFrom_of_extends ih (.cons (Statement.get?_element_members s) _) hfits⟩

/-! ### Every type of node -/

private theorem Root.ofJson_toJson {root : Root} (hfits : ∀ p ∈ root.positions, p.Fits) :
    ofJson root.toJson = .ok root := by
  have helements : Element.listOfJson .strict (.array (Element.listToJson root.elements)) =
      .ok root.elements :=
    Element.listOfJson_listToJson (fun e _ => e.readBack)
      (Element.forall_mem_listPositions_iff.1 hfits)
  obtain ⟨file, elements⟩ := root
  cases file with
  | none => exact ofJson_eq_ok_iff.2 ⟨_, rfl, ⟨_, rfl, helements⟩, .inl rfl⟩
  | some file => exact ofJson_eq_ok_iff.2 ⟨_, rfl, ⟨_, rfl, helements⟩, rfl⟩

namespace NodeKind

/-- What is written for a node of any type is read as that node. -/
theorem read_write_eq_ok {kind : NodeKind} {node : kind.Node}
    (hfits : ∀ p ∈ kind.positions node, p.Fits) (spelling : Spelling) :
    kind.read spelling (kind.write node) = .ok node := by
  cases kind with
  | position =>
    exact orMalformed_eq_ok_iff.2 (Position.ofJson?_toJson (hfits _ List.mem_cons_self))
  | reference =>
    exact orMalformed_eq_ok_iff.2
      (Reference.ofMembers?_of_extends (.refl _) (hfits _ List.mem_cons_self))
  | literal =>
    exact orMalformed_eq_ok_iff.2
      (Literal.ofMembers?_of_extends (.refl _) (hfits _ List.mem_cons_self))
  | call =>
    obtain ⟨hposition, harguments⟩ := Call.forall_mem_positions_iff.1 hfits
    exact orMalformed_eq_ok_iff.2 (Call.ofMembers?_of_extends (.refl _) hposition
      fun v hv => Value.ofJson?_toJson (harguments v hv) spelling)
  | value => exact orMalformed_eq_ok_iff.2 (Value.ofJson?_toJson hfits spelling)
  | assignment =>
    exact orMalformed_eq_ok_iff.2 (Assignment.ofMembers?_of_extends (.refl _) hfits)
  | parameter =>
    exact orMalformed_eq_ok_iff.2 (Parameter.ofJson?_toJson (hfits _ List.mem_cons_self))
  | function => exact Function.ofJson_toJson (fun e _ => e.readBack) hfits
  | forHeader => exact ForHeader.ofJson_toJson (Element.readBack _) (Element.readBack _) hfits
  | declaration =>
    exact Declaration.ofMembers_of_extends (fun e _ => e.readBack) (.refl _) rfl hfits
  | statement =>
    exact Statement.ofJson_eq_ok_iff.2
      ⟨_, rfl, Statement.readFrom_of_extends (fun e _ => e.readBack) (.refl _) hfits⟩
  | element => exact Element.readBack node hfits spelling
  | root => exact Root.ofJson_toJson hfits

/-- Reading undoes writing for every type of node, in either spelling, whatever the names, types and
texts are. Lines and columns are words of 64 bits. -/
theorem read_write (kind : NodeKind) (spelling : Spelling) (node : kind.Node)
    (hfits : ∀ p ∈ kind.positions node, p.Fits) :
    kind.read spelling (kind.write node) = .ok node :=
  read_write_eq_ok hfits spelling

def nestedFunction : Element :=
  .declaration ⟨"twice", true, ⟨0, 0⟩, .function ⟨"int", [⟨"n", "int", ⟨0, 10⟩⟩],
    [.declaration ⟨"f", false, ⟨1, 0⟩, .variable "function" (some (.reference ⟨"n", ⟨1, 13⟩⟩))⟩,
      .statement (.ifThen (.call ⟨"less", false, [.literal ⟨.int, "2", ⟨2, 8⟩⟩], ⟨2, 3⟩⟩)
        [.assignment ⟨"n", .reference ⟨"f", ⟨3, 4⟩⟩, ⟨3, 0⟩⟩] ⟨2, 0⟩)]⟩⟩

theorem read_write_nestedFunction :
    (∀ p ∈ NodeKind.element.positions nestedFunction, p.Fits) ∧
      NodeKind.element.read .strict (NodeKind.element.write nestedFunction) =
        .ok nestedFunction := by
  have hfits : ∀ p ∈ NodeKind.element.positions nestedFunction, p.Fits := by
    have h : ∀ p ∈ NodeKind.element.positions nestedFunction,
        p.line < UInt64.size ∧ p.column < UInt64.size := by decide +kernel
    exact fun p hp => ⟨(h p hp).1, (h p hp).2⟩
  exact ⟨hfits, read_write .element .strict nestedFunction hfits⟩

end NodeKind

end Script
