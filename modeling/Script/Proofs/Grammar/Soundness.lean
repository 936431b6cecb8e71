import Script.Proofs.Grammar.Step
/-!
# What is read is written by the grammar

Every parser spells the phrase it is named for. Each production of the grammar is found again in
the branch that reads it, so the tokens between the two cursors are a phrase of the same kind.
-/

namespace Script.Grammar

open Script.Parser

variable {α : Type} {item : List Token → α → Prop}

/-! ### Last tokens -/

private theorem Items.exists_last {ts : List Token} {as : List α} (h : Items item ts as) :
    ∃ init right, ts = init ++ [right] ∧ right.value = ")" := by
  induction h with
  | last _ hr => exact ⟨_, _, rfl, hr⟩
  | @more ts us a as comma _ _ _ ih =>
    obtain ⟨init, right, rfl, hr⟩ := ih
    exact ⟨ts ++ comma :: init, right, by simp, hr⟩

private theorem Parenthesized.exists_last {ts : List Token} {as : List α}
    (h : Parenthesized item ts as) : ∃ init right, ts = init ++ [right] ∧ right.value = ")" := by
  cases h with
  | @none left right _ hr => exact ⟨[left], right, rfl, hr⟩
  | @some left _ _ _ h =>
    obtain ⟨init, right, rfl, hr⟩ := h.exists_last
    exact ⟨left :: init, right, rfl, hr⟩

/-- Unlike a step, a plain value leaves the statement open. -/
theorem Plain.exists_last {ts : List Token} {v : Value} (h : Plain ts v) :
    ∃ init last, ts = init ++ [last] ∧ last.value ≠ ";" := by
  cases h with
  | @group left right ts _ _ _ hr => exact ⟨left :: ts, right, rfl, by simp [hr]⟩
  | @call name _ _ _ h =>
    obtain ⟨init, right, rfl, hr⟩ := h.exists_last
    exact ⟨name :: init, right, rfl, by simp [hr]⟩
  | literal h => exact ⟨[], _, rfl, ne_of_notMem_signs (notMem_signs_of_literal h) (by decide)⟩
  | reference _ hw => exact ⟨[], _, rfl, hw.ne (by decide)⟩

/-! ### Types -/

theorem exists_brackets {tokens : List Token}
    (h : (startsWith tokens "[" && startsWith (tokens.drop 1) "]") = true) :
    ∃ left right rest, tokens = [left, right] ++ rest ∧ left.value = "[" ∧ right.value = "]" := by
  rw [Bool.and_eq_true, startsWith_eq_true_iff, startsWith_eq_true_iff] at h
  obtain ⟨⟨left, hleft, hl⟩, right, hright, hr⟩ := h
  match tokens with
  | [] => simp at hleft
  | [_] => simp at hright
  | a :: b :: rest =>
    obtain rfl := Option.some.inj hleft
    obtain rfl := Option.some.inj hright
    exact ⟨a, b, rest, rfl, hl, hr⟩

private theorem spells_suffixes : Spells (recursive suffixesBody) Suffixes := by
  refine Spells.recursive fun more hmore c => ?_
  refine .bind_accept (fun left d hl _ => ?_) fun _ => .bind_upcoming ?_
  · exact (hmore d).bind_pure fun ts s hs => .joined hl hs
  · split
    · next hs =>
      obtain ⟨left, right, rest, hc, hl, hr⟩ := exists_brackets hs
      exact .bind_skip hc fun d _ => (hmore d).bind_pure fun ts s hs => .split hl hr hs
    · exact spellsAt_pure .nil

theorem spells_typeName : Spells typeName TypeName := by
  intro c
  refine .bind_identifier fun word d hw _ => ?_
  exact (spells_suffixes d).bind_pure fun ts s hs => .intro hw hs

/-! ### Lists in parentheses -/

private theorem spells_items {p : Parser α} (h : Spells p item) :
    Spells (recursive (itemsBody p)) (Items item) := by
  refine Spells.recursive fun more hmore c => ?_
  refine (h c).bind fun ts a d _ ha => .bind_accept (fun comma e hc _ => ?_) fun _ => ?_
  · exact (hmore e).bind_pure fun us as has => .more ha hc has
  · exact .bind_expect fun right e hr _ => spellsAt_pure (.last ha hr)

theorem spells_parenthesized {p : Parser α} (h : Spells p item) :
    Spells (parenthesized p) (Parenthesized item) := by
  intro c
  refine .bind_expect fun left d hl _ => .bind_accept (fun right e hr _ => ?_) fun _ => ?_
  · exact spellsAt_pure (.none hl hr)
  · exact (spells_items h d).mono fun ts as has => .some hl has

/-! ### Values -/

private theorem spells_call {p : Parser Value} (h : Spells p Expression) :
    Spells (call p) Plain := by
  intro c
  refine .bind_identifier fun name d hn _ => ?_
  exact (spells_parenthesized h d).bind_pure fun ts vs hvs => .call hn hvs

private theorem spells_atom : Spells atom Plain := by
  intro c
  refine .bind_token fun token d _ => ?_
  split
  · next literal hl => exact spellsAt_pure (.literal hl)
  · next kind hk =>
    split
    · next hw => exact spellsAt_pure (.reference hk hw)
    · exact spellsAt_failAt _ _ _ _

private theorem spells_plain {p : Parser Value} (h : Spells p Expression) :
    Spells (plain p) Plain := by
  intro c
  refine .bind_upcoming ?_
  cases hc : c.rest with
  | nil => exact spellsAt_fail _ _ _
  | cons token rest =>
    simp only
    split
    · next hl =>
      refine SpellsAt.bind_skip_one hc fun d _ => ?_
      refine (h d).bind fun ts v e _ hv => .bind_expect fun right f hr _ => ?_
      exact spellsAt_pure (.group (Token.is_iff.1 hl) hv hr)
    · split
      · exact spells_call h c
      · exact spells_atom c

theorem spells_expression : Spells (expression Rule.defaults) Expression := by
  refine Spells.recursive fun inner hinner c v d hrun => ?_
  obtain ⟨element?, e, he, hv⟩ := run_bind_eq_ok.1 hrun
  rcases byRule_defaults_cases he with ⟨rfl, rfl, -⟩ | ⟨ts, w, hts, hs, rfl⟩
  · obtain ⟨ts, hts, hp⟩ := spells_plain hinner _ v d hv
    exact ⟨ts, hts, .plain hp⟩
  · cases hv
    exact ⟨ts, hts, .step hs⟩

theorem run_finish (c : Cursor) :
    finish.run c =
      if c.previous.any (·.is ";") then .ok ((), c) else (expect ";" "';'").run c := by
  rw [finish, run_bind_of_ok _ (run_previous c)]
  split <;> rfl

theorem spells_valueStatement : Spells (valueStatement Rule.defaults) Terminated := by
  intro c v d hrun
  obtain ⟨w, e, he, hrun⟩ := run_bind_eq_ok.1 hrun
  obtain ⟨_, f, hf, hrun⟩ := run_bind_eq_ok.1 hrun
  cases hrun
  obtain ⟨ts, hts, hw⟩ := spells_expression c v e he
  rw [run_finish] at hf
  cases hw with
  | step hs =>
    obtain ⟨init, semicolon, rfl, hsemi⟩ := hs.exists_semicolon
    rw [hts.previous_eq] at hf
    simp only [Option.any_some, Token.is_iff.2 hsemi, if_true, Except.ok.injEq, Prod.mk.injEq,
      true_and] at hf
    exact ⟨_, hf ▸ hts, .step hs⟩
  | plain hp =>
    obtain ⟨init, last, rfl, hlast⟩ := hp.exists_last
    have hopen : e.previous.any (·.is ";") = false := by
      simpa [hts.previous_eq, Token.is] using hlast
    rw [hopen, if_neg Bool.false_ne_true] at hf
    obtain ⟨semicolon, hsemi, hd⟩ := run_expect_eq_ok.1 hf
    exact ⟨_, hts.append hd, .plain hp hsemi⟩

/-! ### Statements that end with a value -/

theorem returning_eq (rules : List Rule) :
    returning rules = do
      let word ← token
      let value ← valueStatement rules
      return .call ⟨"return", true, [value], word.position⟩ := by
  simp only [returning, valueStatement, bind_assoc, pure_bind]

theorem assignment_eq (rules : List Rule) :
    assignment rules = do
      let name ← identifier
      expect "=" "'='"
      let value ← valueStatement rules
      return ⟨name.value, value, name.position⟩ := by
  simp only [assignment, valueStatement, bind_assoc, pure_bind]

theorem initializer_eq (rules : List Rule) (constant : Bool) :
    initializer rules constant = do
      if ← sees ";" then
        if constant then fail .uninitializedConstant
        else do
          skip 1
          return none
      else do
        expect "=" "';' or '='"
        let value ← valueStatement rules
        return some value := by
  simp only [initializer, valueStatement, bind_assoc, pure_bind]

private theorem spells_initializer (constant : Bool) :
    Spells (initializer Rule.defaults constant) (Initializer constant) := by
  intro c
  rw [initializer_eq]
  refine .bind_sees ?_
  split
  · next hs =>
    obtain ⟨semicolon, hhead, he⟩ := startsWith_eq_true_iff.1 hs
    cases constant with
    | true => exact spellsAt_fail _ _ _
    | false =>
      obtain ⟨rest, hc⟩ := List.head?_eq_some_iff.1 hhead
      exact SpellsAt.bind_skip_one hc fun d _ => spellsAt_pure (.none he)
  · refine .bind_expect fun equals d he _ => ?_
    exact (spells_valueStatement d).bind_pure fun ts v hv => .some he hv

/-! ### Declarations -/

/-- Modifiers without a repetition are one of the five lists that the grammar allows. -/
theorem modified_of_foldlM {ms : List Token} {m : Modifiers} (hms : ∀ t ∈ ms, isModifier t = true)
    (h : ms.foldlM (fun seen t => seen.add? t.value) ⟨false, false⟩ = some m) : Modified ms m := by
  match ms with
  | [] =>
    cases h
    exact .none
  | [a] =>
    rcases isModifier_iff.1 (hms a (by simp)) with ha | ha
    · simp [Modifiers.add?, ha] at h
      exact h ▸ .exported ha
    · simp [Modifiers.add?, ha] at h
      exact h ▸ .constant ha
  | [a, b] =>
    rcases isModifier_iff.1 (hms a (by simp)) with ha | ha <;>
      rcases isModifier_iff.1 (hms b (by simp)) with hb | hb
    · simp [Modifiers.add?, ha, hb] at h
    · simp [Modifiers.add?, ha, hb] at h
      exact h ▸ .exportedConstant ha hb
    · simp [Modifiers.add?, ha, hb] at h
      exact h ▸ .constantExported ha hb
    · simp [Modifiers.add?, ha, hb] at h
  | a :: b :: e :: ms =>
    -- of three modifiers two are alike
    rcases isModifier_iff.1 (hms a (by simp)) with ha | ha <;>
      rcases isModifier_iff.1 (hms b (by simp)) with hb | hb <;>
        rcases isModifier_iff.1 (hms e (by simp)) with he | he <;>
          simp [Modifiers.add?, ha, hb, he] at h

private theorem run_modifiersBehind_eq_ok {tokens : List Token} {seen m : Modifiers} {c d : Cursor}
    (hc : c.rest = tokens) (h : (modifiersBehind seen tokens).run c = .ok (m, d)) :
    ∃ ms, c.Passes ms d ∧ (∀ t ∈ ms, isModifier t = true) ∧
      ms.foldlM (fun seen t => seen.add? t.value) seen = some m ∧
        ∀ t, d.rest.head? = some t → isModifier t = false := by
  induction tokens generalizing seen c with
  | nil =>
    rw [modifiersBehind, run_pure] at h
    cases h
    exact ⟨[], .nil d, nofun, rfl, fun t ht => by rw [hc] at ht; cases ht⟩
  | cons token rest ih =>
    rw [modifiersBehind] at h
    split at h
    · next hmodifier =>
      split at h
      · next more hmore =>
        have hone := Cursor.passes_one hc
        have hrest : (c.advance 1).rest = rest := by
          rw [Cursor.rest_advance, hc]
          rfl
        rw [run_bind_of_ok _ (run_skip 1 c)] at h
        obtain ⟨ms, hms, hmodifiers, hfold, hbehind⟩ := ih hrest h
        refine ⟨token :: ms, hone.append hms, List.forall_mem_cons.2 ⟨hmodifier, hmodifiers⟩, ?_,
          hbehind⟩
        rw [List.foldlM_cons, hmore]
        exact hfold
      · cases h
    · next hmodifier =>
      rw [run_pure] at h
      cases h
      refine ⟨[], .nil d, nofun, rfl, fun t ht => ?_⟩
      rw [hc] at ht
      rw [← Option.some.inj ht]
      exact eq_false_of_ne_true hmodifier

theorem run_modifiers_eq_ok {c d : Cursor} {m : Modifiers}
    (h : modifiers.run c = .ok (m, d)) :
    ∃ ms, c.Passes ms d ∧ Modified ms m ∧
      ∀ t, d.rest.head? = some t → isModifier t = false := by
  rw [modifiers, run_bind_of_ok _ (run_upcoming c)] at h
  obtain ⟨ms, hms, hmodifiers, hfold, hbehind⟩ := run_modifiersBehind_eq_ok rfl h
  exact ⟨ms, hms, modified_of_foldlM hmodifiers hfold, hbehind⟩

theorem spells_parameter : Spells parameter DeclaredParameter := by
  intro c p d hrun
  rw [parameter, run_bind_of_ok _ (run_here c)] at hrun
  obtain ⟨type, e, ht, hrun⟩ := run_bind_eq_ok.1 hrun
  obtain ⟨ts, hts, htype⟩ := spells_typeName c type e ht
  obtain ⟨name, f, hn, hrun⟩ := run_bind_eq_ok.1 hrun
  obtain ⟨hname, hw⟩ := run_identifier_eq_ok.1 hn
  cases hrun
  refine ⟨ts ++ [name], hts.append hname, ?_⟩
  cases htype with
  | intro hword hs =>
    rw [hts.position_eq]
    exact .intro (.intro hword hs) hw

/-- What a parser of single elements spells, which reads nothing only at the end. -/
def OneSentence (ts : List Token) (element? : Option Element) : Prop :=
  Sentence ts element? ∨ ts = [] ∧ element? = none

private theorem OneSentence.cons {ts us : List Token} {element? : Option Element}
    {elements : List Element} (h : OneSentence ts element?) (hs : Program us elements) :
    Program (ts ++ us) (element?.toList ++ elements) := by
  rcases h with h | ⟨rfl, rfl⟩
  · exact .cons h hs
  · exact hs

private theorem spells_block {p : Parser (Option Element)} (h : Spells p OneSentence) :
    Spells (recursive (blockBody p)) fun ts body =>
      ∃ us right, ts = us ++ [right] ∧ Program us body ∧ right.value = "\x7d" := by
  refine Spells.recursive fun more hmore c => .bind_upcoming ?_
  cases hc : c.rest with
  | nil => exact spellsAt_fail _ _ _
  | cons token rest =>
    simp only
    split
    · next hr =>
      refine SpellsAt.bind_skip_one hc fun d _ => spellsAt_pure ?_
      exact ⟨[], token, rfl, .nil, Token.is_iff.1 hr⟩
    · refine (h c).bind fun ts element? d _ hs => (hmore d).bind_pure ?_
      rintro _ body ⟨us, right, rfl, hb, hr⟩
      exact ⟨ts ++ us, right, by simp, hs.cons hb, hr⟩

/-- From its keyword on a function is a sentence, whatever modifier stands before it. -/
def FunctionFrom (exported : Bool) (position : Position) (ts : List Token)
    (d : Declaration Element) : Prop :=
  ∃ func us, ts = func :: us ∧ func.value = "func" ∧
    ∀ ms, Modified ms ⟨exported, false⟩ → position = start (ms ++ [func]) →
      Sentence (ms ++ ts) (some (.declaration d))

theorem spells_function {p : Parser (Option Element)} (h : Spells p OneSentence)
    (exported : Bool) (position : Position) :
    Spells (function p exported position) (FunctionFrom exported position) := by
  intro c
  refine .bind_expect fun func _ hf _ => .bind_identifier fun name d hn _ => ?_
  refine (spells_parenthesized spells_parameter d).bind fun ps parameters e _ hp => ?_
  refine (spells_typeName e).bind fun ts returnType f _ ht => .bind_expect fun left g hl _ => ?_
  refine (spells_block h g).bind_pure ?_
  rintro _ body ⟨us, right, rfl, hb, hr⟩
  refine ⟨func, _, rfl, hf, fun ms hm hposition => ?_⟩
  rw [hposition]
  exact .function hm hf hn hp ht hl hb hr

/-- Where the modifiers are gone, a word is left that does not begin a declaration. -/
theorem notMem_declarationWords {c : Cursor} {word : Token}
    (hm : ∀ t, c.rest.head? = some t → isModifier t = false)
    (hf : startsWith c.rest "func" = false) (hw : c.rest.head? = some word) :
    word.value ∉ declarationWords := by
  rw [notMem_declarationWords_iff, Ne, functions_iff]
  refine ⟨hm word hw, fun he => ?_⟩
  rw [startsWith_eq_true_iff.2 ⟨word, hw, he⟩] at hf
  cases hf

/-- A name is bound by the parser only as the grammar allows. -/
theorem Initializer.bound {constant : Bool} {ts : List Token} {value? : Option Value}
    (h : Initializer constant ts value?) (type : String) :
    Bound type constant value? (binding constant type value?) := by
  cases h with
  | none _ => exact .changeable Option.none
  | @some constant _ _ v _ _ =>
    cases constant with
    | false => exact .changeable (Option.some v)
    | true => exact .constant v

private theorem spells_declaration {p : Parser (Option Element)} (h : Spells p OneSentence)
    {c : Cursor} {token : Token} {rest : List Token} (hc : c.rest = token :: rest)
    (hs : token.value ∉ statementWords) :
    SpellsAt c (declaration Rule.defaults p) fun ts d => Sentence ts (some (.declaration d)) := by
  intro declaration d hrun
  rw [Parser.declaration, run_bind_of_ok _ (run_here c)] at hrun
  obtain ⟨m, e, hm, hrun⟩ := run_bind_eq_ok.1 hrun
  obtain ⟨ms, hms, hmodified, hnone⟩ := run_modifiers_eq_ok hm
  have hstart : ∀ first, e.rest.head? = some first → c.position = start (ms ++ [first]) := by
    intro first hfirst
    obtain ⟨more, hmore⟩ := List.head?_eq_some_iff.1 hfirst
    have hpass := hms.append (Cursor.passes_one hmore)
    cases hlist : ms ++ [first] with
    | nil => simp at hlist
    | cons head tail =>
      rw [hlist] at hpass
      exact hpass.position_eq
  rw [run_bind_of_ok _ (run_sees "func" e)] at hrun
  cases hf : startsWith e.rest "func" with
  | true =>
    simp only [hf, if_true] at hrun
    split at hrun
    · simp at hrun
    · next hconstant =>
      obtain ⟨ts, hts, func, us, rfl, hfunc, hsentence⟩ := spells_function h _ _ e _ d hrun
      have hfirst : e.rest.head? = some func := (Cursor.passes_cons_iff.1 hts).1
      have hm' : Modified ms ⟨m.exported, false⟩ := by
        rw [Bool.not_eq_true] at hconstant
        rwa [← hconstant]
      exact ⟨ms ++ func :: us, hms.append hts, hsentence ms hm' (hstart func hfirst)⟩
  | false =>
    simp only [hf, Bool.false_eq_true, if_false] at hrun
    obtain ⟨type, f, ht, hrun⟩ := run_bind_eq_ok.1 hrun
    obtain ⟨name, g, hn, hrun⟩ := run_bind_eq_ok.1 hrun
    obtain ⟨value?, k, hv, hrun⟩ := run_bind_eq_ok.1 hrun
    rw [run_pure] at hrun
    cases hrun
    obtain ⟨_, hts, htype⟩ := spells_typeName e type f ht
    obtain ⟨hname, hw⟩ := run_identifier_eq_ok.1 hn
    obtain ⟨us, hus, hvalue⟩ := spells_initializer m.constant g value? d hv
    cases htype with
    | @intro word ts s hword hsuffixes =>
      have hfirst : e.rest.head? = some word := (Cursor.passes_cons_iff.1 hts).1
      refine ⟨_, hms.append (hts.append (hname.append hus)), ?_⟩
      rw [hstart word hfirst]
      refine .declared hmodified (.intro hword hsuffixes)
        (notMem_declarationWords hnone hf hfirst) ?_ hw hvalue (hvalue.bound _)
      rintro rfl
      rw [Cursor.passes_nil_iff.1 hms, hc] at hfirst
      obtain rfl : token = word := by simpa using hfirst
      exact hs

/-! ### Sentences -/

private theorem Expression.exists_group {left : Token} {ts : List Token} {v : Value}
    (h : Expression (left :: ts) v) (hl : left.value = "(") :
    ∃ us right, ts = us ++ [right] ∧ Expression us v ∧ right.value = ")" := by
  cases h with
  | step h =>
    cases h with
    | before hs _ _ => simp [hl] at hs
    | behind hn _ _ => exact absurd hl (hn.ne (by decide))
  | plain h =>
    cases h with
    | group _ h hr => exact ⟨_, _, rfl, h, hr⟩
    | call hn _ => exact absurd hl (hn.ne (by decide))
    | literal h => exact absurd hl (ne_of_notMem_signs (notMem_signs_of_literal h) (by decide))
    | reference _ hw => exact absurd hl (hw.ne (by decide))

private theorem Expression.ne_nil {ts : List Token} {v : Value} (h : Expression ts v) :
    ts ≠ [] := by
  cases h with
  | step h => cases h <;> simp
  | plain h => cases h <;> simp

private theorem Terminated.ne_nil {ts : List Token} {v : Value} (h : Terminated ts v) :
    ts ≠ [] := by
  cases h with
  | step h => cases h <;> simp
  | plain => simp

/-- A value whose second token opens a parenthesis is a call, or it stands in two pairs of
parentheses. -/
theorem Terminated.sentence {ts : List Token} {v : Value} (h : Terminated ts v)
    {token : Token} {us rest : List Token} (hts : ts = token :: us)
    (hl : startsWith (us ++ rest) "(" = true) (hs : token.value ∉ statementWords) :
    Sentence ts (some (.value v)) := by
  cases h with
  | step h => exact .step h
  | @plain us _ semicolon h he =>
    cases h with
    | @group left right us _ hleft h hr =>
      obtain ⟨-, rfl⟩ := List.cons.inj hts
      cases us with
      | nil => exact absurd rfl h.ne_nil
      | cons left' us =>
        have hleft' : left'.value = "(" := Token.is_iff.1 hl
        obtain ⟨us, right', rfl, hv, hr'⟩ := h.exists_group hleft'
        simpa using Sentence.group hleft hleft' hv hr' hr he
    | call hn h =>
      obtain ⟨rfl, -⟩ := List.cons.inj hts
      exact .call hn hs h he
    | literal _ | reference _ _ =>
      obtain ⟨-, rfl⟩ := List.cons.inj hts
      simp [Token.is, he] at hl

private theorem spells_statement {p : Parser (Option Element)} (h : Spells p OneSentence)
    {c : Cursor} {token : Token} {rest : List Token} (hc : c.rest = token :: rest) :
    SpellsAt c (statement Rule.defaults p token rest) fun ts element =>
      Sentence ts (some element) := by
  unfold Parser.statement
  simp only
  split
  · next hreturn =>
    rw [returning_eq]
    simp only [bind_assoc, pure_bind]
    refine .bind_token fun word d hword => ?_
    obtain ⟨hhead, -⟩ := Cursor.passes_cons_iff.1 hword
    obtain rfl : token = word := by simpa [hc] using hhead
    exact (spells_valueStatement d).bind_pure fun ts v hv =>
      .returned (returns_iff.1 hreturn) hv
  · next hreturn =>
    split
    · exact spellsAt_fail _ _ _
    · next hcontrol =>
      rw [Bool.not_eq_true] at hcontrol
      have hs : token.value ∉ statementWords :=
        notMem_statementWords_iff.2 ⟨hreturn, hcontrol⟩
      split
      · next hl =>
        intro element d hrun
        obtain ⟨v, _, hv, hrun⟩ := run_bind_eq_ok.1 hrun
        rw [run_pure] at hrun
        cases hrun
        obtain ⟨ts, hts, hterm⟩ := spells_valueStatement c v d hv
        refine ⟨ts, hts, ?_⟩
        have hrest := hts.rest_eq
        rw [hc] at hrest
        cases ts with
        | nil => exact absurd rfl hterm.ne_nil
        | cons first us =>
          obtain ⟨rfl, rfl⟩ := List.cons.inj hrest
          exact hterm.sentence rfl hl hs
      · split
        · exact (spells_declaration h hc hs).bind_pure fun ts d hd => hd
        · next hdeclares =>
          split
          · next hfunc =>
            intro element d hrun
            obtain ⟨v, _, hv, hrun⟩ := run_bind_eq_ok.1 hrun
            rw [run_pure] at hrun
            cases hrun
            obtain ⟨_, hts, func, us, rfl, hf, hsentence⟩ := spells_function h _ _ c v d hv
            refine ⟨_, hts, hsentence [] .none ?_⟩
            obtain ⟨hhead, -⟩ := Cursor.passes_cons_iff.1 hts
            obtain rfl : token = func := by simpa [hc] using hhead
            rfl
          · next hfunc =>
            split
            · rw [assignment_eq]
              simp only [bind_assoc, pure_bind]
              refine .bind_identifier fun name d hn hname => .bind_expect fun equals e he _ => ?_
              obtain ⟨hhead, -⟩ := Cursor.passes_cons_iff.1 hname
              obtain rfl : token = name := by simpa [hc] using hhead
              have hd : token.value ∉ declarationWords := by
                rw [notMem_declarationWords_iff]
                refine ⟨?_, hfunc⟩
                rw [declares, Bool.not_eq_true, Bool.or_eq_false_iff, Bool.or_eq_false_iff]
                  at hdeclares
                simpa using hdeclares.1.2
              exact (spells_valueStatement e).bind_pure fun ts v hv => .assigned hn hs hd he hv
            · exact spellsAt_fail _ _ _

private theorem spells_element : Spells (element Rule.defaults) OneSentence := by
  refine Spells.recursive fun inner hinner c => .bind_upcoming ?_
  cases hc : c.rest with
  | nil => exact spellsAt_pure (.inr ⟨rfl, rfl⟩)
  | cons token rest =>
    simp only
    split
    · next he =>
      refine SpellsAt.bind_skip_one hc fun d _ => spellsAt_pure (.inl ?_)
      exact .empty (Token.is_iff.1 he)
    · intro element? d hrun
      obtain ⟨claimed?, e, hclaimed, hbehind⟩ := run_bind_eq_ok.1 hrun
      rcases byRule_defaults_cases hclaimed with ⟨rfl, rfl, -⟩ | ⟨ts, v, hts, hs, rfl⟩
      · obtain ⟨element, _, helement, hsome⟩ := run_bind_eq_ok.1 hbehind
        rw [run_pure] at hsome
        cases hsome
        obtain ⟨ts, hts, hs⟩ := spells_statement hinner hc element d helement
        exact ⟨ts, hts, .inl hs⟩
      · cases hbehind
        exact ⟨ts, hts, .inl (.step hs)⟩

/-- Where tokens are left, an element takes a sentence. -/
theorem spellsAt_element {c : Cursor} (hc : 0 < c.rest.length) :
    SpellsAt c (element Rule.defaults) Sentence := by
  intro element? d hrun
  have hlt := advances_element _ _ _ _ hc hrun
  obtain ⟨ts, hts, hs | ⟨rfl, -⟩⟩ := spells_element c element? d hrun
  · exact ⟨ts, hts, hs⟩
  · rw [Cursor.passes_nil_iff.1 hts] at hlt
    exact absurd hlt (Nat.lt_irrefl _)

end Script.Grammar
