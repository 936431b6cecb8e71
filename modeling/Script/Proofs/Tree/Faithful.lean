import Script.Proofs.Tree.Pruned
import Script.Proofs.Tree.ReadBack
/-!
# Reading is faithful

What is written for a node that was read is the JSON value it was read from, pruned, with its tags
and kinds by name and with objects in place of arrays of fields.
-/

namespace Script

variable {spelling : Spelling} {members : Members} {j : Json}

/-- What was read is written as what it was read from, pruned, and its positions are of 64 bits. -/
structure NodeKind.Faithful (kind : NodeKind) (j : Json) (node : kind.Node) : Prop where
  write : kind.write node = (Content.node kind).pruned .byName j
  fits : ∀ p ∈ kind.positions node, p.Fits

/-! ### Fields of every node -/

theorem Position.faithful {p : Position} (h : ofJson? j = some p) :
    NodeKind.position.Faithful j p := by
  obtain ⟨hfits, members, hmembers, hline, hcolumn⟩ := ofJson?_eq_some_iff.1 h
  refine ⟨?_, fun q hq => ?_⟩
  · rw [Content.pruned_byName .position hmembers, NodeKind.fields, Members.kept_cons_required hline,
      Members.kept_cons_required hcolumn, Content.pruned_plain, Content.pruned_plain]
    rfl
  · obtain rfl := List.mem_singleton.1 hq
    exact hfits

theorem Position.kept_field {p : Position} (h : ofMembers? members = some p) :
    members.kept .byName [Position.field] = [("position", p.toJson)] ∧ p.Fits := by
  obtain ⟨value, hvalue, hp⟩ := ofMembers?_eq_some_iff.1 h
  have hfaithful := Position.faithful hp
  refine ⟨?_, hfaithful.fits p List.mem_cons_self⟩
  rw [Position.field, Members.kept_cons_required hvalue, ← hfaithful.write]
  rfl

/-- What is a tag in one spelling is the same tag if reading is lenient. -/
theorem Json.tag?_lenient {tag : String} {tags : List String}
    (h : j.tag? tags spelling = some tag) : j.tag? tags .lenient = some tag := by
  cases spelling with
  | lenient => exact h
  | strict =>
    cases j <;> cases h
    rfl

private theorem Json.pruned_tag_byName {tag : String} {tags : List String}
    (h : j.tag? tags .lenient = some tag) :
    (Content.tag tags).pruned .byName j = .string tag := by
  rw [Content.pruned_tag]
  unfold tag? at h
  split at h
  · cases h
    rfl
  · cases h
  · rw [Naming.named, h]

/-- A tag is written by name, and settles which other fields there are. -/
theorem Members.kept_tagged {name tag : String} {tags : List String}
    (h : members.tag? name tags spelling = some tag) (fields : String → List Field) :
    members.kept .byName
        (⟨name, .tag tags, false⟩ :: ((members.tag? name tags .lenient).map fields).getD []) =
      (name, .string tag) :: members.kept .byName (fields tag) := by
  obtain ⟨value, hvalue, htag⟩ := Option.bind_eq_some_iff.1 h
  have hlenient := Json.tag?_lenient htag
  have hmembers : members.tag? name tags .lenient = some tag :=
    Option.bind_eq_some_iff.2 ⟨value, hvalue, hlenient⟩
  rw [kept_cons_required hvalue, Json.pruned_tag_byName hlenient, hmembers]
  rfl

private theorem LiteralKind.pruned_eq {kind : LiteralKind} (h : ofJson? spelling j = some kind) :
    Content.literalKind.pruned .byName j = .string kind.name := by
  rw [Content.pruned_literalKind]
  unfold ofJson? at h
  split at h
  · obtain rfl := ofName?_eq_some_iff.1 h
    rfl
  · obtain rfl := ofName?_eq_some_iff.1 h
    rfl
  · split at h
    · cases h
    · obtain rfl := ofName?_eq_some_iff.1 h
      rfl
  · cases h

theorem NodeKind.faithful_nodes {kind : NodeKind} {items : List Json} {nodes : List kind.Node}
    (h : List.Forall₂ kind.Faithful items nodes) :
    .array (nodes.map kind.write) = (Content.nodes kind).pruned .byName (.array items) ∧
      ∀ node ∈ nodes, ∀ p ∈ kind.positions node, p.Fits := by
  rw [Content.pruned_array, Json.array.injEq]
  induction h with
  | nil => exact ⟨rfl, fun _ h => nomatch h⟩
  | cons hfaithful _ ih =>
    refine ⟨?_, List.forall_mem_cons.2 ⟨hfaithful.fits, ih.2⟩⟩
    rw [List.map_cons, List.map_cons, hfaithful.write, ih.1]

theorem forall₂_imp_of_mem {α β : Type} {R S : α → β → Prop} {as : List α} {bs : List β}
    (h : List.Forall₂ R as bs) (himp : ∀ a, ∀ b ∈ bs, R a b → S a b) : List.Forall₂ S as bs := by
  induction h with
  | nil => exact .nil
  | cons hR _ ih =>
    exact .cons (himp _ _ List.mem_cons_self hR)
      (ih fun a b hb => himp a b (List.mem_cons_of_mem _ hb))

/-! ### Values -/

theorem Reference.faithful_members {r : Reference} (h : ofMembers? members = some r) :
    r.members = members.kept .byName fields ∧ r.position.Fits := by
  obtain ⟨hname, hposition⟩ := ofMembers?_eq_some_iff.1 h
  obtain ⟨hkept, hfits⟩ := Position.kept_field hposition
  rw [fields, Members.kept_cons_required hname, hkept, Content.pruned_plain]
  exact ⟨rfl, hfits⟩

theorem Literal.faithful_members {l : Literal} (h : ofMembers? spelling members = some l) :
    l.members = members.kept .byName fields ∧ l.position.Fits := by
  obtain ⟨⟨kind, hkind, hread⟩, htext, hposition⟩ := ofMembers?_eq_some_iff.1 h
  obtain ⟨hkept, hfits⟩ := Position.kept_field hposition
  rw [fields, Members.kept_cons_required hkind, Members.kept_cons_required htext, hkept,
    Content.pruned_plain, LiteralKind.pruned_eq hread]
  exact ⟨rfl, hfits⟩

theorem Parameter.faithful {p : Parameter} (h : ofJson? j = some p) :
    NodeKind.parameter.Faithful j p := by
  obtain ⟨members, hmembers, hname, htype, hposition⟩ := ofJson?_eq_some_iff.1 h
  obtain ⟨hkept, hfits⟩ := Position.kept_field hposition
  refine ⟨?_, fun q hq => ?_⟩
  · rw [Content.pruned_byName .parameter hmembers, NodeKind.fields, fields,
      Members.kept_cons_required hname, Members.kept_cons_required htype, hkept, Content.pruned_plain, Content.pruned_plain]
    rfl
  · obtain rfl := List.mem_singleton.1 hq
    exact hfits

def Value.ReadFaithfully (v : Value) : Prop :=
  ∀ spelling j, ofJson? spelling j = some v → NodeKind.value.Faithful j v

theorem Call.faithful_members {c : Call Value} (h : ofMembers? spelling members = some c)
    (harguments : ∀ v ∈ c.arguments, v.ReadFaithfully) :
    Call.members c = members.kept .byName fields ∧ ∀ p ∈ Call.positions c, p.Fits := by
  obtain ⟨hname, hinternal, ⟨value, hvalue, hread⟩, hposition⟩ := ofMembers?_eq_some_iff.1 h
  obtain ⟨items, rfl, hitems⟩ := Value.listOfJson?_eq_some_iff.1 hread
  have hfaithful : List.Forall₂ NodeKind.value.Faithful items c.arguments :=
    forall₂_imp_of_mem hitems fun item v hv => harguments v hv spelling item
  obtain ⟨hnodes, hfitting⟩ := NodeKind.faithful_nodes hfaithful
  obtain ⟨hkept, hfits⟩ := Position.kept_field hposition
  refine ⟨?_, forall_mem_positions_iff.2 ⟨hfits, hfitting⟩⟩
  rw [fields, Members.kept_cons_required hname, Members.kept_cons_required hinternal,
    Members.kept_cons_required hvalue, hkept, ← hnodes, Content.pruned_plain, Content.pruned_plain]
  obtain ⟨name, internal, arguments, position⟩ := c
  rw [Call.members, Value.listToJson_eq_map]
  rfl

theorem Value.faithful_tagged {v : Value} {tag : String} (h : ofTagged? tag members = some v)
    (hchildren : ∀ c ∈ v.children, c.ReadFaithfully) :
    v.toJson = .object (("element", .string tag) :: members.kept .byName (taggedFields tag)) ∧
      ∀ p ∈ v.positions, p.Fits := by
  rcases ofTagged?_eq_some_iff.1 h with ⟨rfl, c, rfl, hc⟩ | ⟨rfl, r, rfl, hr⟩ | ⟨rfl, l, rfl, hl⟩
  · obtain ⟨hmembers, hfits⟩ := Call.faithful_members hc hchildren
    rw [toJson, hmembers]
    exact ⟨rfl, hfits⟩
  · obtain ⟨hmembers, hfits⟩ := Reference.faithful_members hr
    rw [toJson, hmembers]
    exact ⟨rfl, List.forall_mem_singleton.2 hfits⟩
  · obtain ⟨hmembers, hfits⟩ := Literal.faithful_members hl
    rw [toJson, hmembers]
    exact ⟨rfl, List.forall_mem_singleton.2 hfits⟩

theorem Value.readFaithfully (v : Value) : v.ReadFaithfully := by
  -- The induction is on the value that was read: what it was read from may be larger in any way.
  induction v using Value.induction with
  | step value ih =>
    intro spelling j h
    obtain ⟨members, tag, hmembers, htag, hread⟩ := ofJson?_eq_some_iff.1 h
    obtain ⟨hwrite, hfits⟩ := faithful_tagged hread ih
    refine ⟨?_, hfits⟩
    rw [Content.pruned_byName .value hmembers, NodeKind.fields, Members.kept_tagged htag]
    exact hwrite

theorem Assignment.faithful_members {a : Assignment} (h : ofMembers? spelling members = some a) :
    a.members = members.kept .byName fields ∧ ∀ p ∈ a.positions, p.Fits := by
  obtain ⟨hname, ⟨value, hvalue, hread⟩, hposition⟩ := ofMembers?_eq_some_iff.1 h
  have hfaithful := a.value.readFaithfully spelling value hread
  obtain ⟨hkept, hfits⟩ := Position.kept_field hposition
  refine ⟨?_, List.forall_mem_cons.2 ⟨hfits, hfaithful.fits⟩⟩
  rw [fields, Members.kept_cons_required hname, Members.kept_cons_required hvalue, hkept,
    Content.pruned_plain, ← hfaithful.write]
  rfl

/-! ### Elements -/

def Element.ReadFaithfully (e : Element) : Prop :=
  ∀ spelling j, ofJson spelling j = .ok e → NodeKind.element.Faithful j e

theorem Element.faithful_list {es : List Element} (h : listOfJson spelling j = .ok es)
    (hes : ∀ e ∈ es, e.ReadFaithfully) :
    .array (listToJson es) = (Content.nodes .element).pruned .byName j ∧
      ∀ e ∈ es, ∀ p ∈ e.positions, p.Fits := by
  obtain ⟨items, rfl, hitems⟩ := listOfJson_eq_ok_iff.1 h
  have hfaithful : List.Forall₂ NodeKind.element.Faithful items es :=
    forall₂_imp_of_mem hitems fun item e he => hes e he spelling item
  rw [listToJson_eq_map]
  exact NodeKind.faithful_nodes hfaithful

private theorem Parameter.faithful_list {ps : List Parameter} (h : listOfJson? j = some ps) :
    .array (ps.map toJson) = (Content.nodes .parameter).pruned .byName j ∧
      ∀ p ∈ ps, p.position.Fits := by
  obtain ⟨items, rfl, hitems⟩ := listOfJson?_eq_some_iff.1 h
  have hfaithful : List.Forall₂ NodeKind.parameter.Faithful items ps :=
    hitems.imp fun item p => Parameter.faithful
  obtain ⟨hnodes, hfits⟩ := NodeKind.faithful_nodes hfaithful
  exact ⟨hnodes, fun p hp => hfits p hp _ List.mem_cons_self⟩

theorem Function.faithful {f : Function Element} (h : ofJson spelling j = .ok f)
    (hbody : ∀ e ∈ f.body, e.ReadFaithfully) : NodeKind.function.Faithful j f := by
  obtain ⟨members, hmembers, hreturn, ⟨ps, hps, hparameters⟩, es, hes, helements⟩ :=
    ofJson_eq_ok_iff.1 h
  obtain ⟨hps', hpsfits⟩ := Parameter.faithful_list hparameters
  obtain ⟨hes', hesfits⟩ := Element.faithful_list helements hbody
  refine ⟨?_, forall_mem_positions_iff.2 ⟨hpsfits, hesfits⟩⟩
  rw [Content.pruned_byName .function hmembers, NodeKind.fields, fields,
    Members.kept_cons_required hreturn,
    Members.kept_cons_required hps, Members.kept_cons_required hes, ← hps', ← hes',
    Content.pruned_plain]
  cases f
  rfl

theorem ForHeader.faithful {header : ForHeader Element} (h : ofJson spelling j = .ok header)
    (hinitial : header.initial.ReadFaithfully) (hrepeated : header.repeated.ReadFaithfully) :
    NodeKind.forHeader.Faithful j header := by
  obtain ⟨members, hmembers, ⟨i, hi, hiread⟩, ⟨c, hc, hcread⟩, r, hr, hrread⟩ :=
    ofJson_eq_ok_iff.1 h
  have hi' := hinitial spelling i hiread
  have hc' := header.condition.readFaithfully spelling c hcread
  have hr' := hrepeated spelling r hrread
  refine ⟨?_, forall_mem_positions_iff.2 ⟨hi'.fits, hc'.fits, hr'.fits⟩⟩
  rw [Content.pruned_byName .forHeader hmembers, NodeKind.fields, fields,
    Members.kept_cons_required hi, Members.kept_cons_required hc, Members.kept_cons_required hr,
    ← hi'.write, ← hc'.write, ← hr'.write]
  cases header
  rfl

theorem Statement.faithful_members {s : Statement Element} (h : ReadFrom spelling members s)
    (hchildren : ∀ e ∈ (Element.statement s).children, e.ReadFaithfully) :
    Statement.members s = members.kept .byName (fields members) ∧
      ∀ p ∈ Statement.positions s, p.Fits := by
  obtain ⟨htag, hcondition, hheader, ⟨es, hes, hread⟩, hposition⟩ := h
  obtain ⟨hes', hesfits⟩ :=
    Element.faithful_list hread fun e he => hchildren e (Element.mem_children_of_body he)
  obtain ⟨hkept, hfits⟩ := Position.kept_field hposition
  have hcondition' : ∀ c, s.condition? = some c → ∃ value, members.get? "condition" = some value ∧
      NodeKind.value.Faithful value c := fun c hc =>
    have ⟨value, hvalue, hread⟩ := hcondition c hc
    ⟨value, hvalue, c.readFaithfully .lenient value hread⟩
  have hheader' : ∀ header, s.header? = some header →
      ∃ value, members.get? "expression" = some value ∧
        NodeKind.forHeader.Faithful value header := fun header hh =>
    have ⟨value, hvalue, hread⟩ := hheader header hh
    have ⟨hi, hr⟩ := Element.mem_children_of_header hh
    ⟨value, hvalue, ForHeader.faithful hread (hchildren _ hi) (hchildren _ hr)⟩
  refine ⟨?_, forall_mem_positions_iff.2 ⟨hfits, fun c hc => ?_, fun header hh => ?_, hesfits⟩⟩
  · rw [fields, Members.kept_tagged htag]
    cases s with
    | ifThen c body position =>
      obtain ⟨value, hvalue, hc⟩ := hcondition' c rfl
      rw [tag, taggedFields, Members.kept_cons_required hvalue, Members.kept_cons_required hes,
        ← hc.write, ← hes', hkept]
      rfl
    | otherwise body position =>
      rw [tag, taggedFields, Members.kept_cons_required hes, ← hes', hkept]
      rfl
    | forLoop header body position =>
      obtain ⟨value, hvalue, hh⟩ := hheader' header rfl
      rw [tag, taggedFields, Members.kept_cons_required hvalue, Members.kept_cons_required hes,
        ← hh.write, ← hes', hkept]
      rfl
    | whileLoop c body position =>
      obtain ⟨value, hvalue, hc⟩ := hcondition' c rfl
      rw [tag, taggedFields, Members.kept_cons_required hvalue, Members.kept_cons_required hes,
        ← hc.write, ← hes', hkept]
      rfl
  · obtain ⟨value, -, hc⟩ := hcondition' c hc
    exact hc.fits
  · obtain ⟨value, -, hh⟩ := hheader' header hh
    exact hh.fits

private theorem Field.keeps_of_members? {field : Field} {names : List Json → List String}
    (h : j.members? names = some members) : field.keeps j = true := by
  cases j with
  | null => cases h
  | _ => rfl

/-- The field of a body or a value is written as it was read, or left out if it was missing or
null. -/
theorem Binding.faithful_field {part? : Option (Function Element ⊕ Value)}
    (h : ReadAs (members.get? "value") part?)
    (hbody : ∀ f, part? = some (.inl f) → ∀ e ∈ f.body, e.ReadFaithfully) (fields : List Field) :
    members.kept .byName (⟨"value", .node (kind members), true⟩ :: fields) =
        ((part?.map (Sum.elim Function.toJson Value.toJson)).map
          fun value => ("value", value)).toList ++ members.kept .byName fields ∧
      (∀ f, part? = some (.inl f) → ∀ p ∈ Function.positions f, p.Fits) ∧
      ∀ v, part? = some (.inr v) → ∀ p ∈ v.positions, p.Fits := by
  rcases part? with _ | f | v
  · rw [Members.kept_cons_absent h]
    exact ⟨rfl, nofun, nofun⟩
  · obtain ⟨value, hvalue, hread⟩ := h
    have hfaithful := Function.faithful hread (hbody f rfl)
    have hkind : kind members = .function := by
      rw [kind, hvalue, Option.any_some, hread]
      rfl
    have hkeeps : (⟨"value", .node .function, true⟩ : Field).keeps value = true := by
      obtain ⟨_, hmembers, -⟩ := Function.ofJson_eq_ok_iff.1 hread
      exact Field.keeps_of_members? hmembers
    rw [hkind, Members.kept_cons hvalue hkeeps, ← hfaithful.write]
    refine ⟨rfl, fun g hg => ?_, nofun⟩
    cases hg
    exact hfaithful.fits
  · obtain ⟨value, hvalue, hfunction, hread⟩ := h
    have hfaithful := v.readFaithfully .lenient value hread
    have hkind : kind members = .value := by
      rw [kind, hvalue, Option.any_some]
      cases hf : Function.ofJson .lenient value with
      | ok f => exact (hfunction f hf).elim
      | error e => rfl
    have hkeeps : (⟨"value", .node .value, true⟩ : Field).keeps value = true := by
      obtain ⟨_, _, hmembers, -⟩ := Value.ofJson?_eq_some_iff.1 hread
      exact Field.keeps_of_members? hmembers
    rw [hkind, Members.kept_cons hvalue hkeeps, ← hfaithful.write]
    refine ⟨rfl, nofun, fun w hw => ?_⟩
    cases hw
    exact hfaithful.fits

theorem Declaration.faithful_members {d : Declaration Element} (h : ofMembers members = .ok d)
    (hchildren : ∀ e ∈ (Element.declaration d).children, e.ReadFaithfully) :
    Declaration.members d = members.kept .byName (fields members) ∧
      ∀ p ∈ Declaration.positions d, p.Fits := by
  obtain ⟨hname, hconstant, hexported, htype, hposition, hpart⟩ := ofMembers_eq_ok_iff.1 h
  obtain ⟨hkept, hfits⟩ := Position.kept_field hposition
  obtain ⟨hvalue, hpartfits⟩ := Binding.faithful_field hpart
    (fun f hf e he => hchildren e (Element.mem_children_of_function hf he)) [Position.field]
  refine ⟨?_, forall_mem_positions_iff.2 ⟨hfits, hpartfits⟩⟩
  rw [fields, Members.kept_cons_required hname, Members.kept_cons_required hconstant,
    Members.kept_cons_required hexported, Members.kept_cons_required htype, hvalue, hkept]
  simp only [Content.pruned_plain]
  exact members_eq_flat d

theorem Element.readFaithfully (e : Element) : e.ReadFaithfully := by
  induction e using Element.induction with
  | step element ih =>
    intro spelling j h
    obtain ⟨members, tag, hmembers, htag, hread⟩ := ofJson_eq_ok_iff.1 h
    -- The fields beside the tag depend on the tag alone, whether it was a name or a number.
    suffices h : element.toJson =
        .object (("element", .string tag) :: members.kept .byName (taggedFields members tag)) ∧
          ∀ p ∈ element.positions, p.Fits by
      refine ⟨?_, h.2⟩
      rw [Content.pruned_byName .element hmembers, NodeKind.fields, Members.kept_tagged htag]
      exact h.1
    cases element with
    | declaration d =>
      obtain ⟨rfl, hd⟩ := hread
      obtain ⟨hmembers, hfits⟩ := Declaration.faithful_members hd ih
      rw [toJson, hmembers]
      exact ⟨rfl, hfits⟩
    | assignment a =>
      obtain ⟨rfl, ha⟩ := hread
      obtain ⟨hmembers, hfits⟩ := Assignment.faithful_members ha
      rw [toJson, hmembers]
      exact ⟨rfl, hfits⟩
    | value v =>
      have htagged : taggedFields members tag = Value.taggedFields tag := by
        rcases Value.ofTagged?_eq_some_iff.1 hread with ⟨rfl, -⟩ | ⟨rfl, -⟩ | ⟨rfl, -⟩ <;> rfl
      rw [htagged]
      exact Value.faithful_tagged hread fun c _ => c.readFaithfully
    | statement s =>
      obtain ⟨rfl, hs⟩ := hread
      obtain ⟨hmembers, hfits⟩ := Statement.faithful_members hs ih
      rw [toJson, hmembers]
      exact ⟨rfl, hfits⟩

/-! ### Every type of node -/

private theorem Root.faithful {root : Root} (h : ofJson j = .ok root) :
    NodeKind.root.Faithful j root := by
  obtain ⟨members, hmembers, ⟨es, hes, hread⟩, hfile⟩ := ofJson_eq_ok_iff.1 h
  obtain ⟨hes', hfits⟩ := Element.faithful_list hread fun e _ => e.readFaithfully
  refine ⟨?_, Element.forall_mem_listPositions_iff.2 hfits⟩
  obtain ⟨file, elements⟩ := root
  rw [Content.pruned_byName .root hmembers, NodeKind.fields]
  cases file with
  | none =>
    rw [Members.kept_cons_absent hfile, Members.kept_cons_required hes, ← hes']
    rfl
  | some file =>
    rw [Members.kept_cons hfile rfl, Members.kept_cons_required hes, ← hes', Content.pruned_plain]
    rfl

namespace NodeKind

variable {kind : NodeKind} {node : kind.Node}

private theorem Faithful.of_members {written : Members}
    (hmembers : j.members? kind.names = some members)
    (h : written = members.kept .byName (kind.fields members) ∧ ∀ p ∈ kind.positions node, p.Fits)
    (hwrite : kind.write node = .object written) : kind.Faithful j node :=
  ⟨by rw [hwrite, h.1, Content.pruned_byName kind hmembers], h.2⟩

private theorem faithful_of_read (h : kind.read spelling j = .ok node) : kind.Faithful j node := by
  cases kind with
  | position => exact Position.faithful (orMalformed_eq_ok_iff.1 h)
  | reference =>
    obtain ⟨members, hmembers, hread⟩ := Option.bind_eq_some_iff.1 (orMalformed_eq_ok_iff.1 h)
    obtain ⟨hkept, hfits⟩ := Reference.faithful_members hread
    exact .of_members hmembers ⟨hkept, List.forall_mem_singleton.2 hfits⟩ rfl
  | literal =>
    obtain ⟨members, hmembers, hread⟩ := Option.bind_eq_some_iff.1 (orMalformed_eq_ok_iff.1 h)
    obtain ⟨hkept, hfits⟩ := Literal.faithful_members hread
    exact .of_members hmembers ⟨hkept, List.forall_mem_singleton.2 hfits⟩ rfl
  | call =>
    obtain ⟨members, hmembers, hread⟩ := Option.bind_eq_some_iff.1 (orMalformed_eq_ok_iff.1 h)
    exact .of_members hmembers (Call.faithful_members hread fun v _ => v.readFaithfully) rfl
  | value => exact Value.readFaithfully node spelling j (orMalformed_eq_ok_iff.1 h)
  | assignment =>
    obtain ⟨members, hmembers, hread⟩ := Option.bind_eq_some_iff.1 (orMalformed_eq_ok_iff.1 h)
    exact .of_members hmembers (Assignment.faithful_members hread) rfl
  | parameter => exact Parameter.faithful (orMalformed_eq_ok_iff.1 h)
  | function => exact Function.faithful h fun e _ => e.readFaithfully
  | forHeader => exact ForHeader.faithful h (Element.readFaithfully _) (Element.readFaithfully _)
  | declaration =>
    obtain ⟨members, hmembers, hread⟩ := Declaration.ofJson_eq_ok_iff.1 h
    exact .of_members hmembers (Declaration.faithful_members hread fun e _ => e.readFaithfully) rfl
  | statement =>
    obtain ⟨members, hmembers, hread⟩ := Statement.ofJson_eq_ok_iff.1 h
    exact .of_members hmembers (Statement.faithful_members hread fun e _ => e.readFaithfully) rfl
  | element => exact Element.readFaithfully node spelling j h
  | root => exact Root.faithful h

private theorem exists_write_eq_object (kind : NodeKind) (node : kind.Node) :
    ∃ written, kind.write node = .object written := by
  cases kind with
  | value => cases node <;> exact ⟨_, rfl⟩
  | function =>
    cases node
    exact ⟨_, rfl⟩
  | forHeader =>
    cases node
    exact ⟨_, rfl⟩
  | element =>
    cases node with
    | value v => cases v <;> exact ⟨_, rfl⟩
    | _ => exact ⟨_, rfl⟩
  | _ => exact ⟨_, rfl⟩

/-- What is written for a node that was read is what it was read from, pruned, with its tags and
kinds by name and with objects in place of arrays of fields: every member written was there, in a
field of the node, and every field that was there is written. Reading it again gives the same
node. -/
theorem write_of_read (h : kind.read spelling j = .ok node) :
    kind.write node = (Content.node kind).pruned .byName j ∧
      (∃ members written : Members, j.members? kind.names = some members ∧
        kind.write node = .object written ∧
        ∀ name value, (name, value) ∈ written ↔ ∃ field ∈ kind.fields members, field.name = name ∧
          ∃ found, members.get? name = some found ∧ field.keeps found = true ∧
            value = field.content.pruned .byName found) ∧
      kind.read spelling (kind.write node) = .ok node := by
  have hfaithful := faithful_of_read h
  obtain ⟨written, hwritten⟩ := exists_write_eq_object kind node
  obtain ⟨members, hmembers, hkept⟩ :=
    Content.pruned_eq_object_iff.1 (hfaithful.write.symm.trans hwritten)
  refine ⟨hfaithful.write, ⟨members, written, hmembers, hwritten, fun name value => ?_⟩,
    read_write_eq_ok hfaithful.fits spelling⟩
  rw [hkept]
  exact Members.mem_kept_iff

/-- A root that says it has no file, with a declaration that says it has no value, has a note and
gives its position in an array. -/
def annotated : Json :=
  .object [("file", .null), ("elements", .array [.object [("note", .string "kept by hand"),
    ("element", .string "declaration"), ("name", .string "a"), ("constant", .bool false),
    ("exported", .bool true), ("type", .string "function"), ("value", .null),
    ("position", .array [.ofNat 1, .ofNat 2])]])]

theorem write_of_read_annotated :
    NodeKind.root.read .strict annotated =
        .ok ⟨none, [.declaration ⟨"a", true, ⟨1, 2⟩, .variable "function" none⟩]⟩ ∧
      NodeKind.root.write ⟨none, [.declaration ⟨"a", true, ⟨1, 2⟩, .variable "function" none⟩]⟩ =
        (Content.node .root).pruned .byName annotated := by
  have h : NodeKind.root.read .strict annotated =
      .ok ⟨none, [.declaration ⟨"a", true, ⟨1, 2⟩, .variable "function" none⟩]⟩ := by
    refine Root.ofJson_eq_ok_iff.2 ⟨_, rfl, ⟨_, rfl, ?_⟩, Or.inr rfl⟩
    refine Element.listOfJson_eq_ok_iff.2 ⟨_, rfl, .cons ?_ .nil⟩
    refine Element.ofJson_eq_ok_iff.2 ⟨_, "declaration", rfl, rfl, rfl, ?_⟩
    exact Declaration.ofMembers_eq_ok_iff.2 ⟨rfl, rfl, rfl, rfl, rfl, .inr rfl⟩
  exact ⟨h, (write_of_read h).1⟩

def literalByObject : Json :=
  .object [("type", .object [("int", .null)]), ("value", .string "1"),
    ("position", .object [("line", .ofNat 1), ("column", .ofNat 2)])]

def assignmentByNumber : Json :=
  .object [("element", .string "assignment"), ("name", .string "a"),
    ("value", .object [("element", .ofNat 1), ("value", .string "x"),
      ("position", .object [("line", .ofNat 1), ("column", .ofNat 6)])]),
    ("position", .object [("line", .ofNat 1), ("column", .ofNat 2)])]

def referenceByArray : Json := .array [.string "x", .array [.ofNat 0, .ofNat 6]]

/-- Kinds and tags that are no names, and arrays that stand for nodes, are not written as they were
found. -/
theorem write_ne_pruned_asFound :
    (NodeKind.literal.read .strict literalByObject = .ok ⟨.int, "1", ⟨1, 2⟩⟩ ∧
      NodeKind.literal.write ⟨.int, "1", ⟨1, 2⟩⟩ ≠
        (Content.node .literal).pruned .asFound literalByObject) ∧
    (NodeKind.element.read .strict assignmentByNumber =
        .ok (.assignment ⟨"a", .reference ⟨"x", ⟨1, 6⟩⟩, ⟨1, 2⟩⟩) ∧
      NodeKind.element.write (.assignment ⟨"a", .reference ⟨"x", ⟨1, 6⟩⟩, ⟨1, 2⟩⟩) ≠
        (Content.node .element).pruned .asFound assignmentByNumber) ∧
    (NodeKind.reference.read .strict referenceByArray = .ok ⟨"x", ⟨0, 6⟩⟩ ∧
      NodeKind.reference.write ⟨"x", ⟨0, 6⟩⟩ ≠
        (Content.node .reference).pruned .asFound referenceByArray) := by
  refine ⟨⟨rfl, fun h => ?_⟩, ⟨?_, fun h => ?_⟩, rfl, fun h => ?_⟩
  · rw [literalByObject, @Content.pruned_node _ .literal _ _ rfl, NodeKind.fields, Literal.fields,
      Members.kept_cons_required rfl, Content.pruned_literalKind] at h
    cases h
  · refine Element.ofJson_eq_ok_iff.2 ⟨_, "assignment", rfl, rfl, rfl, ?_⟩
    refine Assignment.ofMembers?_eq_some_iff.2 ⟨rfl, ⟨_, rfl, ?_⟩, rfl⟩
    refine Value.ofJson?_eq_some_iff.2 ⟨_, "reference", rfl, rfl, ?_⟩
    exact Value.ofTagged?_eq_some_iff.2 (.inr (.inl ⟨rfl, _, rfl, rfl⟩))
  · rw [assignmentByNumber, @Content.pruned_node _ .element _ _ rfl, NodeKind.fields,
      Members.kept_cons_required rfl, Content.pruned_tag] at h
    change _ = Json.object (_ :: Members.kept _ _ Assignment.fields) at h
    rw [Assignment.fields, Members.kept_cons_required rfl, Members.kept_cons_required rfl,
      Content.pruned_plain, @Content.pruned_node _ .value _ _ rfl, NodeKind.fields,
      Members.kept_cons_required rfl, Content.pruned_tag] at h
    cases h
  · rw [referenceByArray, @Content.pruned_node _ .reference _ _ rfl] at h
    cases h

end NodeKind

end Script
