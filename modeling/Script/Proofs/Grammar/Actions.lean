import Script.Proofs.Grammar.Program
import Script.Proofs.Recovery.Shape
/-!
# Statements that do nothing

A statement declares, assigns or calls, with one exception. Behind a parenthesis the parser looks
for a call and takes any value, so a name or a literal may stand alone as soon as it is in two pairs
of parentheses. Such a statement is found among the tokens without reading them: it is told by what
it consists of and by what stands in front of it.
-/

namespace Script

open Script.Parser Script.Grammar

namespace Element

def IsAction : Element → Prop
  | .declaration _ | .assignment _ | .value (.call _) => True
  | .value (.reference _) | .value (.literal _) | .statement _ => False

/-- The element is one of the elements, or it stands inside of one of them. -/
inductive Inside (e : Element) : List Element → Prop
  | here {es : List Element} (h : e ∈ es) : Inside e es
  | child {x : Element} {es : List Element} (hx : x ∈ es) (h : Inside e x.children) : Inside e es

theorem Inside.mono {e : Element} {es fs : List Element} (h : e.Inside es) (hsub : es ⊆ fs) :
    e.Inside fs := by
  cases h with
  | here h => exact .here (hsub h)
  | child hx h => exact .child (hsub hx) h

theorem not_inside_nil {e : Element} : ¬e.Inside [] := by
  intro h
  cases h with
  | here h => cases h
  | child hx _ => cases hx

theorem inside_append_iff {e : Element} {es fs : List Element} :
    e.Inside (es ++ fs) ↔ e.Inside es ∨ e.Inside fs := by
  constructor
  · intro h
    cases h with
    | here h => exact (List.mem_append.1 h).imp .here .here
    | child hx h => exact (List.mem_append.1 hx).imp (.child · h) (.child · h)
  · rintro (h | h)
    · exact h.mono (List.subset_append_left es fs)
    · exact h.mono (List.subset_append_right es fs)

theorem inside_singleton_iff {e x : Element} : e.Inside [x] ↔ e = x ∨ e.Inside x.children := by
  constructor
  · intro h
    cases h with
    | here h => exact .inl (List.mem_singleton.1 h)
    | child hx h => exact .inr (List.mem_singleton.1 hx ▸ h)
  · rintro (rfl | h)
    · exact .here List.mem_cons_self
    · exact .child List.mem_cons_self h

end Element

namespace Grammar

/-! ### Values without a call -/

/-- A name or a literal, in any number of parentheses. -/
inductive Enclosed : List Token → Value → Prop
  | literal {token : Token} {literal : Literal} (h : Literal.ofToken token = .ok literal) :
      Enclosed [token] (.literal literal)
  | reference {token : Token} {kind : SyntaxError} (h : Literal.ofToken token = .error kind)
      (hw : Word token) : Enclosed [token] (.reference ⟨token.value, token.position⟩)
  | group {left right : Token} {ts : List Token} {v : Value} (hl : left.value = "(")
      (h : Enclosed ts v) (hr : right.value = ")") : Enclosed (left :: (ts ++ [right])) v

/-- A name or a literal in two pairs of parentheses or more, and the end of its statement. -/
inductive BareStatement : List Token → Value → Prop
  | intro {left left' right' right semicolon : Token} {ts : List Token} {v : Value}
      (hl : left.value = "(") (hl' : left'.value = "(") (h : Enclosed ts v)
      (hr' : right'.value = ")") (hr : right.value = ")") (he : semicolon.value = ";") :
      BareStatement (left :: left' :: (ts ++ [right', right, semicolon])) v

/-- Tokens that a sentence may stand behind: there are none, or the last of them ends a sentence or
opens a body. -/
def Boundary (ts : List Token) : Prop :=
  ∀ last ∈ ts.getLast?, last.value ∈ [";", "\x7b", "\x7d"]

/-- Among the tokens stands the value as a statement of its own. -/
def BareAmong (tokens : List Token) (v : Value) : Prop :=
  ∃ before us behind, tokens = before ++ (us ++ behind) ∧ Boundary before ∧ BareStatement us v

theorem Enclosed.plain {ts : List Token} {v : Value} (h : Enclosed ts v) : Plain ts v := by
  induction h with
  | literal h => exact .literal h
  | reference h hw => exact .reference h hw
  | group hl _ hr ih => exact .group hl (.plain ih) hr

private theorem Enclosed.not_isAction {ts : List Token} {v : Value} (h : Enclosed ts v) :
    ¬(Element.value v).IsAction := by
  induction h with
  | literal _ => exact id
  | reference _ _ => exact id
  | group _ _ _ ih => exact ih

mutual

/-- What stands for a value is a call, or it is a name or a literal. -/
theorem Expression.call_or_enclosed {ts : List Token} {v : Value} :
    Expression ts v → (∃ node, v = .call node) ∨ Enclosed ts v
  | .step h => by cases h <;> exact .inl ⟨_, rfl⟩
  | .plain h => Plain.call_or_enclosed h

theorem Plain.call_or_enclosed {ts : List Token} {v : Value} :
    Plain ts v → (∃ node, v = .call node) ∨ Enclosed ts v
  | .group hl h hr => (Expression.call_or_enclosed h).imp_right (.group hl · hr)
  | .call _ _ => .inl ⟨_, rfl⟩
  | .literal h => .inr (.literal h)
  | .reference h hw => .inr (.reference h hw)

end

namespace BareStatement

variable {us : List Token} {v : Value}

private theorem sentence (h : BareStatement us v) : Sentence us (some (.value v)) := by
  cases h with
  | intro hl hl' h hr' hr he => exact .group hl hl' (.plain h.plain) hr' hr he

private theorem no_brace (h : BareStatement us v) : ∀ t ∈ us, t.value ≠ "\x7d" := by
  cases h with
  | intro hl hl' h hr' hr he =>
    have hgroup : Plain _ v := .group hl (.plain (.group hl' (.plain h.plain) hr')) hr
    have hflat := (Terminated.plain hgroup he).flat
    simp only [List.cons_append, List.append_assoc, List.nil_append] at hflat
    exact fun t ht => (hflat.no_brace t ht).2

private theorem not_isAction (h : BareStatement us v) : ¬(Element.value v).IsAction := by
  cases h with
  | intro _ _ h _ _ _ => exact h.not_isAction

private theorem opens (h : BareStatement us v) {behind rest : List Token} {next : Token}
    (hus : us ++ behind = next :: rest) : next.value = "(" := by
  cases h with
  | intro hl _ _ _ _ _ =>
    obtain ⟨rfl, -⟩ := List.cons.inj hus
    exact hl

end BareStatement

/-! ### Where a sentence may begin -/

theorem boundary_nil : Boundary [] := by
  simp [Boundary]

theorem boundary_append_singleton_iff {ts : List Token} {last : Token} :
    Boundary (ts ++ [last]) ↔ last.value ∈ [";", "\x7b", "\x7d"] := by
  simp [Boundary]

theorem boundary_append_of_ne_nil {ts us : List Token} (hus : us ≠ []) :
    Boundary (ts ++ us) ↔ Boundary us := by
  rw [Boundary, Boundary, List.getLast?_append_of_ne_nil ts hus]

private theorem Boundary.append {ts us : List Token} (h : Boundary ts) (h' : Boundary us) :
    Boundary (ts ++ us) := by
  by_cases hus : us = []
  · subst hus
    rwa [List.append_nil]
  · exact (boundary_append_of_ne_nil hus).2 h'

theorem Boundary.of_append {ts us : List Token} (h : Boundary (ts ++ us)) : Boundary us := by
  by_cases hus : us = []
  · exact hus ▸ boundary_nil
  · exact (boundary_append_of_ne_nil hus).1 h

private theorem not_boundary_of_mild {ts : List Token} (hne : ts ≠ []) (h : ∀ t ∈ ts, Mild t) :
    ¬Boundary ts := by
  obtain ⟨init, last, rfl⟩ := (List.eq_nil_or_concat' ts).resolve_left hne
  obtain ⟨hleft, hright, hsemicolon⟩ := h last (by simp)
  simp [boundary_append_singleton_iff, hleft, hright, hsemicolon]

theorem Sentence.boundary {ts : List Token} {element? : Option Element}
    (h : Sentence ts element?) : Boundary ts := by
  rcases h.endsFlat_or_block with ⟨-, us, semicolon, rfl, he⟩ |
    ⟨header, left, us, right, body, rfl, -, -, -, hr, -⟩
  · rw [boundary_append_singleton_iff, he]
    decide
  · rw [← List.cons_append, ← List.append_assoc, boundary_append_singleton_iff, hr]
    decide

theorem BareAmong.append_right {ts : List Token} {v : Value} (h : BareAmong ts v)
    (us : List Token) : BareAmong (ts ++ us) v := by
  obtain ⟨before, vs, behind, rfl, hbefore, hv⟩ := h
  exact ⟨before, vs, behind ++ us, by simp, hbefore, hv⟩

theorem BareAmong.append_left {ts us : List Token} {v : Value} (hts : Boundary ts)
    (h : BareAmong us v) : BareAmong (ts ++ us) v := by
  obtain ⟨before, vs, behind, rfl, hbefore, hv⟩ := h
  exact ⟨ts ++ before, vs, behind, by simp, hts.append hbefore, hv⟩

/-! ### Elements that are no actions -/

def ActsOrBare (ts : List Token) (e : Element) : Prop :=
  e.IsAction ∨ ∃ v, e = .value v ∧ BareAmong ts v

theorem ActsOrBare.imp {ts us : List Token} {e : Element} (h : ActsOrBare ts e)
    (hbare : ∀ v, BareAmong ts v → BareAmong us v) : ActsOrBare us e :=
  Or.imp_right (fun ⟨v, hv, hamong⟩ => ⟨v, hv, hbare v hamong⟩) h

theorem actsOrBare_group {left left' right' right semicolon : Token} {ts : List Token} {v : Value}
    (hl : left.value = "(") (hl' : left'.value = "(") (h : Expression ts v)
    (hr' : right'.value = ")") (hr : right.value = ")") (he : semicolon.value = ";") :
    ActsOrBare (left :: left' :: (ts ++ [right', right, semicolon])) (.value v) := by
  rcases h.call_or_enclosed with ⟨node, rfl⟩ | h
  · exact .inl trivial
  · exact .inr ⟨v, rfl, [], _, [], by simp, boundary_nil, .intro hl hl' h hr' hr he⟩

theorem Bound.children_eq_nil {type : String} {constant : Bool} {value? : Option Value}
    {bound : Binding Element} (h : Bound type constant value? bound) (name : String)
    (exported : Bool) (position : Position) :
    (Element.declaration ⟨name, exported, position, bound⟩).children = [] := by
  cases h with
  | constant v => rfl
  | changeable value? => cases value? <;> rfl

theorem forall_inside_leaf {P : Element → Prop} {x : Element} (hx : x.children = []) (h : P x) :
    ∀ e : Element, e.Inside [x] → P e := by
  intro e he
  rcases Element.inside_singleton_iff.1 he with rfl | he
  · exact h
  · rw [hx] at he
    exact absurd he Element.not_inside_nil

mutual

theorem Sentence.actsOrBare {ts : List Token} {element? : Option Element} :
    Sentence ts element? → ∀ e : Element, e.Inside element?.toList → ActsOrBare ts e
  | .empty _ => fun _ he => absurd he Element.not_inside_nil
  | .step h => forall_inside_leaf rfl (by cases h <;> exact .inl trivial)
  | .returned _ _ => forall_inside_leaf rfl (.inl trivial)
  | .call _ _ _ _ => forall_inside_leaf rfl (.inl trivial)
  | .group hl hl' h hr' hr he => forall_inside_leaf rfl (actsOrBare_group hl hl' h hr' hr he)
  | .declared _ _ _ _ _ _ hb => forall_inside_leaf (hb.children_eq_nil _ _ _) (.inl trivial)
  | .assigned _ _ _ _ _ => forall_inside_leaf rfl (.inl trivial)
  | @Sentence.function ms ps ts _ _ func name left right _ _ _ _ _ _ _ _ hl h _ => by
    intro e he
    rcases Element.inside_singleton_iff.1 he with rfl | he
    · exact .inl trivial
    · have hheader : Boundary (ms ++ (func :: name :: (ps ++ ts)) ++ [left]) := by
        rw [boundary_append_singleton_iff, hl]
        decide
      apply (h.actsOrBare e he).imp
      intro v hv
      have hamong := (hv.append_left hheader).append_right [right]
      simpa using hamong

/-- Whatever stands in a program is an action, or it stands among the tokens as a statement of its
own. -/
theorem Program.actsOrBare {ts : List Token} {elements : List Element} :
    Program ts elements → ∀ e : Element, e.Inside elements → ActsOrBare ts e
  | .nil => fun _ he => absurd he Element.not_inside_nil
  | .cons h hs => by
    intro e he
    rcases Element.inside_append_iff.1 he with he | he
    · exact (h.actsOrBare e he).imp fun v hv => hv.append_right _
    · exact (hs.actsOrBare e he).imp fun v hv => hv.append_left h.boundary

end

/-! ### Values that are read -/

/-- Of the tokens at the front only one sentence can be read. -/
theorem Sentence.unique {ts us rest rest' : List Token} {a b : Option Element}
    (h : Sentence ts a) (h' : Sentence us b) (heq : ts ++ rest = us ++ rest') :
    ts = us ∧ a = b := by
  obtain ⟨d, hd, -⟩ := Cursor.exists_passes (c := .start (ts ++ rest)) rfl
  obtain ⟨d', hd', -⟩ := Cursor.exists_passes (c := .start (ts ++ rest)) heq
  have hrun := h.reads _ d hd trivial
  rw [h'.reads _ d' hd' trivial] at hrun
  cases hrun
  refine ⟨?_, rfl⟩
  have hrest := hd.rest_eq
  rw [hd'.rest_eq] at hrest
  exact (List.append_cancel_right hrest).symm

private theorem exists_of_append_singleton {us ahead more : List Token} {right next : Token}
    (h : us ++ [right] = ahead ++ next :: more) (hne : next ≠ right) :
    ∃ inside, more = inside ++ [right] ∧ us = ahead ++ next :: inside := by
  rcases List.eq_nil_or_concat' more with rfl | ⟨inside, last, rfl⟩
  · obtain ⟨-, hright⟩ := List.append_inj' h rfl
    exact absurd (List.singleton_inj.1 hright).symm hne
  · rw [← List.cons_append, ← List.append_assoc] at h
    obtain ⟨rfl, hright⟩ := List.append_inj' h rfl
    obtain rfl := List.singleton_inj.1 hright
    exact ⟨inside, rfl, rfl⟩

private theorem exists_of_append_cons {us behind inside rest : List Token} {right : Token}
    (h : us ++ behind = inside ++ right :: rest) (hus : right ∉ us) :
    ∃ cs, inside = us ++ cs := by
  rcases List.append_eq_append_iff.1 h with ⟨cs, rfl, -⟩ | ⟨cs, rfl, hcs⟩
  · exact ⟨cs, rfl⟩
  · cases cs with
    | nil => exact ⟨[], by simp⟩
    | cons first cs =>
      obtain ⟨rfl, -⟩ := List.cons.inj hcs
      simp at hus

/-- Behind a boundary inside of a sentence no parenthesis opens, unless the boundary is in the body
of a function. -/
theorem Sentence.exists_body {before more : List Token} {next : Token} {element? : Option Element}
    (h : Sentence (before ++ next :: more) element?) (hne : before ≠ []) (hb : Boundary before)
    (hnext : next.value = "(") :
    ∃ e ahead inside right, element? = some e ∧ more = inside ++ [right] ∧
      right.value = "\x7d" ∧ Program (ahead ++ next :: inside) e.children ∧ Boundary ahead ∧
      ahead.length < before.length := by
  rcases h.endsFlat_or_block with ⟨hflat, -⟩ |
    ⟨header, left, us, right, body, htokens, hheader, hl, hbody, hr, e, rfl, rfl⟩
  · obtain ⟨init, last, rfl⟩ := (List.eq_nil_or_concat' before).resolve_left hne
    have hbrace := hflat.no_brace last (by simp)
    have hlast : last.value = ";" := by
      have hmem := boundary_append_singleton_iff.1 hb
      simpa [hbrace.1, hbrace.2] using hmem
    rw [List.append_assoc, List.singleton_append] at hflat
    have hgoesOn := hflat.goesOn hlast
    simp [hnext] at hgoesOn
  · rcases List.append_eq_append_iff.1 htokens with ⟨as, rfl, -⟩ | ⟨bs, rfl, hbs⟩
    · exact absurd hb (not_boundary_of_mild hne fun t ht => hheader t (List.mem_append_left as ht))
    cases bs with
    | nil =>
      obtain ⟨rfl, -⟩ := List.cons.inj hbs
      exact absurd (hl.symm.trans hnext) (by decide)
    | cons _ ahead =>
      obtain ⟨rfl, hus⟩ := List.cons.inj hbs
      have hahead : Boundary ahead := by
        rw [← List.singleton_append, ← List.append_assoc] at hb
        exact hb.of_append
      have hne' : next ≠ right := by
        rintro rfl
        exact absurd (hr.symm.trans hnext) (by decide)
      obtain ⟨inside, rfl, rfl⟩ := exists_of_append_singleton hus hne'
      refine ⟨e, ahead, inside, right, rfl, rfl, hr, hbody, hahead, ?_⟩
      simp only [List.length_append, List.length_cons]
      omega

/-- A value that stands among the tokens of a program as a statement of its own is read. -/
theorem Program.inside_of_bare {before us behind : List Token} {elements : List Element} {v : Value}
    (h : Program (before ++ (us ++ behind)) elements) (hb : Boundary before)
    (hu : BareStatement us v) : (Element.value v).Inside elements := by
  generalize htokens : before ++ (us ++ behind) = tokens at h
  cases h with
  | nil =>
    obtain ⟨-, hus⟩ := List.append_eq_nil_iff.1 htokens
    have hpos := hu.sentence.length_pos
    rw [(List.append_eq_nil_iff.1 hus).1] at hpos
    exact absurd hpos (Nat.lt_irrefl 0)
  | @cons ts rest element? elements h hs =>
    have hpos := h.length_pos
    have hsub := List.subset_append_right element?.toList elements
    rcases List.append_eq_append_iff.1 htokens with ⟨cs, rfl, hcs⟩ | ⟨cs, hbefore, rfl⟩
    · by_cases hne : before = []
      · -- The statement is the first sentence itself.
        subst hne
        obtain ⟨-, rfl⟩ := h.unique hu.sentence hcs.symm
        exact .here List.mem_cons_self
      have hlt : 0 < before.length := List.length_pos_iff.2 hne
      cases cs with
      | nil =>
        -- The statement stands right behind the first sentence.
        obtain rfl : us ++ behind = rest := hcs
        have hs' : Program ([] ++ (us ++ behind)) elements := hs
        exact (hs'.inside_of_bare boundary_nil hu).mono hsub
      | cons next more =>
        -- The first sentence is a function, and the statement stands in its body.
        obtain ⟨e, ahead, inside, right, rfl, rfl, hr, hbody, hahead, hlt⟩ :=
          h.exists_body hne hb (hu.opens hcs)
        have hright : right ∉ us := fun hmem => hu.no_brace right hmem hr
        have hcs' : us ++ behind = (next :: inside) ++ right :: rest := by simpa using hcs
        obtain ⟨cs, hinside⟩ := exists_of_append_cons hcs' hright
        rw [hinside] at hbody
        exact .child List.mem_cons_self (hbody.inside_of_bare hahead hu)
    · -- The statement stands behind the first sentence.
      have hlt : cs.length < before.length := by
        rw [hbefore, List.length_append]
        omega
      rw [hbefore] at hb
      exact (hs.inside_of_bare hb.of_append hu).mono hsub
termination_by before.length

end Grammar

/-- What is read declares, assigns or calls, inside of functions as well, but for exactly the names
and literals that stand among the tokens as statements of their own, in two pairs of parentheses or
more. -/
theorem Settings.parse_actions (file : Option String) (verbose : Bool) {tokens : List Token}
    (source : String) {parsed : Parsed}
    (h : parse { file, verbose } tokens source = .ok parsed) (e : Element) :
    e.Inside parsed.root.elements ∧ ¬e.IsAction ↔ ∃ v, e = .value v ∧ BareAmong tokens v := by
  obtain ⟨elements, hprogram, rfl⟩ := parse_eq_ok_iff_program.1 h
  constructor
  · rintro ⟨he, haction⟩
    exact (hprogram.actsOrBare e he).resolve_left haction
  · rintro ⟨v, rfl, before, us, behind, rfl, hbefore, hu⟩
    exact ⟨hprogram.inside_of_bare hbefore hu, hu.not_isAction⟩

/-- A name that stands alone in the body of a function, in front of a call. -/
theorem Settings.parse_actions_nested :
    let before := ["func", "f", "(", ")", "int", "\x7b"].map (Token.mk {})
    let us := ["(", "(", "x", ")", ")", ";"].map (Token.mk {})
    let behind := ["g", "(", ")", ";", "\x7d"].map (Token.mk {})
    BareAmong (before ++ (us ++ behind)) (.reference ⟨"x", {}⟩) ∧
      ∃ parsed, parse {} (before ++ (us ++ behind)) "" = .ok parsed ∧
        (Element.value (.reference ⟨"x", {}⟩)).Inside parsed.root.elements ∧
        ∀ e : Element, e.Inside parsed.root.elements ∧ ¬e.IsAction ↔
          ∃ v, e = .value v ∧ BareAmong (before ++ (us ++ behind)) v := by
  intro before us behind
  have hx : Literal.ofToken ⟨{}, "x"⟩ = .error (.unknownLiteral "x") := rfl
  have hus : BareStatement us (.reference ⟨"x", {}⟩) :=
    .intro rfl rfl (.reference hx rfl) rfl rfl rfl
  have hamong : BareAmong (before ++ (us ++ behind)) (.reference ⟨"x", {}⟩) :=
    ⟨before, us, behind, rfl, by simp [Boundary, before], hus⟩
  have hlength : (parse {} (before ++ (us ++ behind)) "").toOption.map
      (·.root.elements.length) = some 1 := by
    decide +kernel
  obtain ⟨parsed, hparse, -⟩ := exists_parse_of_map_eq hlength
  have hactions := parse_actions none false "" hparse
  exact ⟨hamong, parsed, hparse, ((hactions _).2 ⟨_, rfl, hamong⟩).1, hactions⟩

/-- A name in two pairs of parentheses is taken for a statement. -/
theorem Settings.parse_bare_reference :
    ∃ tokenized parsed, tokenize "((x));" none = .ok tokenized ∧
      parse {} tokenized.tokens "((x));" = .ok parsed ∧
      .value (.reference ⟨"x", ⟨0, 2⟩⟩) ∈ parsed.root.elements ∧
      ¬(Element.value (.reference ⟨"x", ⟨0, 2⟩⟩)).IsAction := by
  have htokens : tokenize "((x));" none = .ok ⟨none,
      [⟨⟨0, 0⟩, "("⟩, ⟨⟨0, 1⟩, "("⟩, ⟨⟨0, 2⟩, "x"⟩, ⟨⟨0, 3⟩, ")"⟩, ⟨⟨0, 4⟩, ")"⟩,
        ⟨⟨0, 5⟩, ";"⟩]⟩ := by
    decide +kernel
  exact ⟨_, _, htokens, rfl, List.mem_cons_self, id⟩

end Script
