import Script.Proofs.Grammar.Soundness
/-!
# What the grammar writes is read

The tokens of a phrase are read wherever they stand. Types and plain values are ended by what
follows them, so those two ask something of it; all other phrases bring their own end along.
-/

namespace Script.Grammar

open Script.Parser

variable {α : Type} {item : List Token → α → Prop}

/-! ### First tokens -/

theorem foreign_of_eq {token : Token} {text : String} (h : token.value = text)
    (ht : text ∈ signs ∧ text ≠ "++" ∧ text ≠ "--") : Foreign token := by
  rw [Foreign, h]
  exact ht

theorem Parenthesized.exists_first {ts : List Token} {as : List α}
    (h : Parenthesized item ts as) : ∃ left us, ts = left :: us ∧ left.value = "(" := by
  cases h with
  | none hl _ => exact ⟨_, _, rfl, hl⟩
  | some hl _ => exact ⟨_, _, rfl, hl⟩

def Ends (rest : List Token) : Prop :=
  ∃ sign more, rest = sign :: more ∧ (sign.value = ")" ∨ sign.value = "," ∨ sign.value = ";")

theorem ends_right {right : Token} (h : right.value = ")") (rest : List Token) :
    Ends (right :: rest) :=
  ⟨right, rest, rfl, .inl h⟩

private theorem ends_comma {comma : Token} (h : comma.value = ",") (rest : List Token) :
    Ends (comma :: rest) :=
  ⟨comma, rest, rfl, .inr (.inl h)⟩

private theorem ends_semicolon {semicolon : Token} (h : semicolon.value = ";") (rest : List Token) :
    Ends (semicolon :: rest) :=
  ⟨semicolon, rest, rfl, .inr (.inr h)⟩

private theorem Ends.foreign {sign : Token} {more : List Token} (h : Ends (sign :: more)) :
    Foreign sign := by
  obtain ⟨_, _, he, hs⟩ := h
  obtain ⟨rfl, rfl⟩ := List.cons.inj he
  rcases hs with hs | hs | hs <;> exact foreign_of_eq hs (by decide)

private theorem Ends.startsWith_eq_false {rest : List Token} (h : Ends rest) :
    startsWith rest "(" = false := by
  obtain ⟨sign, more, rfl, hs⟩ := h
  rcases hs with hs | hs | hs <;> exact startsWith_cons_eq_false (by simp [hs])

/-! ### Types -/

def NoSuffix (rest : List Token) : Prop :=
  ∀ t, rest.head? = some t → t.value ≠ "[]" ∧ t.value ≠ "["

theorem Word.noSuffix {name : Token} (h : Word name) (rest : List Token) :
    NoSuffix (name :: rest) := by
  intro t ht
  obtain rfl : name = t := by simpa using ht
  exact ⟨h.ne (by decide), h.ne (by decide)⟩

private theorem NoSuffix.startsWith_eq_false {rest : List Token} (h : NoSuffix rest) :
    startsWith rest "[]" = false ∧ startsWith rest "[" = false := by
  cases rest with
  | nil => simp
  | cons t rest =>
    exact ⟨startsWith_cons_eq_false (h t rfl).1, startsWith_cons_eq_false (h t rfl).2⟩

theorem suffixLength_eq_zero {rest : List Token} (h : NoSuffix rest) : suffixLength rest = 0 := by
  obtain ⟨hjoined, hleft⟩ := h.startsWith_eq_false
  rw [suffixLength_eq_zero_iff, hjoined, hleft]
  exact ⟨rfl, rfl⟩

private theorem Suffixes.reads {ts : List Token} {s : String} (h : Suffixes ts s) :
    Reads (suffixLength · = 0) (recursive suffixesBody) ts s := by
  induction h with
  | nil =>
    rw [suffixes_eq]
    refine Reads.bind_nil (reads_accept_not "[]") (.of_upcoming fun rest hrest => ?_)
      fun rest hrest => (suffixLength_eq_zero_iff.1 hrest).1
    rw [List.nil_append, (suffixLength_eq_zero_iff.1 hrest).2, if_neg Bool.false_ne_true]
    exact reads_pure ""
  | joined ht _ ih =>
    rw [suffixes_eq]
    exact Reads.cons (reads_accept ht) (ih.bind_pure _)
  | @split left right ts s hl hr _ ih =>
    rw [suffixes_eq]
    refine Reads.bind_nil (reads_accept_not "[]") (.of_upcoming fun rest hrest => ?_)
      fun rest hrest => startsWith_cons_eq_false (by simp [hl])
    have hboth : (startsWith (left :: right :: ts ++ rest) "[" &&
        startsWith ((left :: right :: ts ++ rest).drop 1) "]") = true := by
      simp [Token.is, hl, hr]
    rw [hboth, if_pos rfl]
    have hmore : Reads (· = rest) (recursive suffixesBody) ts s := ih.mono (by simpa using hrest)
    exact (reads_skip [left, right]).bind (hmore.bind_pure _) fun _ _ => trivial

theorem TypeName.reads {ts : List Token} {type : String} (h : TypeName ts type) :
    Reads (suffixLength · = 0) typeName ts type := by
  cases h with
  | intro hw hs => exact Reads.cons (reads_identifier hw) (hs.reads.bind_pure _)

/-! ### Lists in parentheses -/

private theorem Items.reads {p : Parser α} {ts : List Token} {as : List α}
    (h : Items (Reads Ends p) ts as) : Reads Any (recursive (itemsBody p)) ts as := by
  induction h with
  | @last ts a right h hr =>
    rw [items_eq]
    refine h.bind (Reads.bind_nil (reads_accept_not ",") ?_ fun rest _ => ?_)
      fun rest _ => ends_right hr rest
    · exact Reads.cons (reads_expect _ hr) (reads_pure [a])
    · exact startsWith_cons_eq_false (by simp [hr])
  | more h hc _ ih =>
    rw [items_eq]
    exact h.bind (Reads.cons (reads_accept hc) (ih.bind_pure _)) fun rest _ => ends_comma hc _

theorem Items.startsWith_eq_false {ts : List Token} {as : List α}
    (h : Items item ts as) (hi : ∀ us a, item us a → ∃ t vs, us = t :: vs ∧ t.value ≠ ")")
    (rest : List Token) : startsWith (ts ++ rest) ")" = false := by
  cases h with
  | last h _ =>
    obtain ⟨t, vs, rfl, ht⟩ := hi _ _ h
    exact startsWith_cons_eq_false ht
  | more h _ _ =>
    obtain ⟨t, vs, rfl, ht⟩ := hi _ _ h
    exact startsWith_cons_eq_false ht

theorem reads_parenthesized_none {left right : Token} (p : Parser α) (hl : left.value = "(")
    (hr : right.value = ")") : Reads Any (parenthesized p) [left, right] [] :=
  Reads.cons (reads_expect _ hl) (Reads.cons (reads_accept hr) (reads_pure []))

theorem reads_parenthesized_some {left : Token} {p : Parser α} {ts : List Token} {as : List α}
    (hl : left.value = "(") (h : Items (Reads Ends p) ts as)
    (hfirst : ∀ rest, startsWith (ts ++ rest) ")" = false) :
    Reads Any (parenthesized p) (left :: ts) as :=
  Reads.cons (reads_expect _ hl)
    (Reads.bind_nil (reads_accept_not ")") h.reads fun rest _ => hfirst rest)

/-! ### Values -/

def Opens (token : Token) : Prop :=
  token.value = "(" ∨ token.value = "++" ∨ token.value = "--" ∨ token.value ∉ signs

theorem Opens.ne {token : Token} {text : String} (h : Opens token) (ht : text ∈ signs)
    (ht' : text ≠ "(" ∧ text ≠ "++" ∧ text ≠ "--") : token.value ≠ text := by
  rintro rfl
  rcases h with h | h | h | h
  · exact ht'.1 h
  · exact ht'.2.1 h
  · exact ht'.2.2 h
  · exact h ht

theorem Step.exists_first {ts : List Token} {v : Value} (h : Step ts v) :
    ∃ t us, ts = t :: us ∧ Opens t := by
  cases h with
  | before hs _ _ => exact ⟨_, _, rfl, .inr (hs.imp id .inl)⟩
  | behind hn _ _ => exact ⟨_, _, rfl, .inr (.inr (.inr hn.notMem_signs))⟩

theorem Plain.exists_first {ts : List Token} {v : Value} (h : Plain ts v) :
    ∃ t us, ts = t :: us ∧ Opens t := by
  cases h with
  | group hl _ _ => exact ⟨_, _, rfl, .inl hl⟩
  | call hn _ => exact ⟨_, _, rfl, .inr (.inr (.inr hn.notMem_signs))⟩
  | literal h => exact ⟨_, _, rfl, .inr (.inr (.inr (notMem_signs_of_literal h)))⟩
  | reference _ hw => exact ⟨_, _, rfl, .inr (.inr (.inr hw.notMem_signs))⟩

theorem Expression.exists_first {ts : List Token} {v : Value} (h : Expression ts v) :
    ∃ t us, ts = t :: us ∧ Opens t := by
  cases h with
  | step h => exact h.exists_first
  | plain h => exact h.exists_first

private theorem Plain.stepApplies {ts rest : List Token} {v : Value} (h : Plain ts v)
    (hrest : Ends rest) : Rule.stepApplies (ts ++ rest) = false := by
  have hsecond : ∀ token, Rule.stepApplies (token :: rest) = false := by
    intro token
    obtain ⟨sign, more, rfl, -⟩ := id hrest
    exact stepApplies_of_second hrest.foreign
  cases h with
  | group hl _ _ => exact stepApplies_of_head (foreign_of_eq hl (by decide))
  | call _ h =>
    obtain ⟨left, us, rfl, hl⟩ := h.exists_first
    exact stepApplies_of_second (foreign_of_eq hl (by decide))
  | literal | reference => exact hsecond _

theorem Step.reads_expression {ts : List Token} {v : Value} (h : Step ts v) :
    Reads Any (expression Rule.defaults) ts v := by
  intro c d hd _
  rw [expression_eq, expressionBody, run_bind_of_ok _ (h.reads true c d hd trivial)]
  rfl

theorem Plain.reads_expression {ts : List Token} {v : Value} (h : Plain ts v)
    (hp : Reads Ends (plain (expression Rule.defaults)) ts v) :
    Reads Ends (expression Rule.defaults) ts v := by
  intro c d hd hrest
  have hnone : Rule.stepApplies c.rest = false := hd.rest_eq ▸ h.stepApplies hrest
  rw [expression_eq, expressionBody, run_bind_of_ok _ (run_byRule_of_not hnone)]
  exact hp c d hd hrest

theorem reads_group {p : Parser Value} {left right : Token} {ts : List Token} {v : Value}
    (hl : left.value = "(") (h : Reads Ends p ts v) (hr : right.value = ")") :
    Reads Ends (plain p) (left :: (ts ++ [right])) v := by
  refine .of_upcoming fun rest _ => ?_
  simp only [List.cons_append, Token.is_iff.2 hl, if_true]
  refine (reads_skip [left]).bind ?_ fun _ _ => trivial
  exact h.bind (Reads.cons (reads_expect _ hr) (reads_pure v)) fun _ _ => ends_right hr _

theorem reads_call {p : Parser Value} {name : Token} {ts : List Token} {vs : List Value}
    (hn : Word name) (h : Reads Any (parenthesized p) ts vs)
    (hl : ∃ left us, ts = left :: us ∧ left.value = "(") :
    Reads Ends (plain p) (name :: ts) (.call ⟨name.value, false, vs, name.position⟩) := by
  obtain ⟨left, us, rfl, hl⟩ := hl
  have hname : name.is "(" = false := by
    rw [Token.is, beq_eq_false_iff_ne]
    exact hn.ne (by decide)
  refine .of_upcoming fun rest _ => ?_
  simp only [List.cons_append, hname, Bool.false_eq_true, if_false, startsWith_cons,
    Token.is_iff.2 hl, if_true]
  exact Reads.cons (reads_identifier hn) (h.of_any.bind_pure _)

theorem reads_atom {p : Parser Value} {token : Token} {v : Value} (h : Reads Any atom [token] v)
    (ht : token.value ∉ signs) : Reads Ends (plain p) [token] v := by
  have htoken : token.is "(" = false := by
    rw [Token.is, beq_eq_false_iff_ne]
    exact ne_of_notMem_signs ht (by decide)
  refine .of_upcoming fun rest hrest => ?_
  simp only [List.cons_append, List.nil_append, htoken, Bool.false_eq_true, if_false,
    hrest.startsWith_eq_false]
  exact h.of_any

theorem reads_literal {token : Token} {literal : Literal}
    (h : Literal.ofToken token = .ok literal) : Reads Any atom [token] (.literal literal) := by
  refine Reads.cons (reads_token token) ?_
  simp only [h]
  exact reads_pure _

theorem reads_reference {token : Token} {kind : SyntaxError}
    (h : Literal.ofToken token = .error kind) (hw : Word token) :
    Reads Any atom [token] (.reference ⟨token.value, token.position⟩) := by
  refine Reads.cons (reads_token token) ?_
  simp only [h]
  rw [if_pos (show Identifier.isValid token.value = true from hw)]
  exact reads_pure _

mutual

private theorem Expression.reads {ts : List Token} {v : Value} :
    Expression ts v → Reads Ends (expression Rule.defaults) ts v
  | .step h => h.reads_expression.of_any
  | .plain h => h.reads_expression h.reads

theorem Plain.reads {ts : List Token} {v : Value} :
    Plain ts v → Reads Ends (plain (expression Rule.defaults)) ts v
  | .group hl h hr => reads_group hl h.reads hr
  | .call hn h => reads_call hn (Parenthesized.reads_arguments h) h.exists_first
  | .literal h => reads_atom (reads_literal h) (notMem_signs_of_literal h)
  | .reference h hw => reads_atom (reads_reference h hw) hw.notMem_signs

theorem Parenthesized.reads_arguments {ts : List Token} {vs : List Value} :
    Parenthesized Expression ts vs → Reads Any (parenthesized (expression Rule.defaults)) ts vs
  | .none hl hr => reads_parenthesized_none _ hl hr
  | .some hl h =>
    reads_parenthesized_some hl (Items.reads_arguments h) fun rest =>
      h.startsWith_eq_false (fun us v hv => by
        obtain ⟨t, vs, rfl, ht⟩ := hv.exists_first
        exact ⟨t, vs, rfl, ht.ne (by decide) (by decide)⟩) rest

theorem Items.reads_arguments {ts : List Token} {vs : List Value} :
    Items Expression ts vs → Items (Reads Ends (expression Rule.defaults)) ts vs
  | .last h hr => .last h.reads hr
  | .more h hc hs => .more h.reads hc (Items.reads_arguments hs)

end

theorem Terminated.reads {ts : List Token} {v : Value} (h : Terminated ts v) :
    Reads Any (valueStatement Rule.defaults) ts v := by
  intro c d hd _
  cases h with
  | step h =>
    obtain ⟨init, semicolon, rfl, he⟩ := h.exists_semicolon
    have hfinish : finish.run d = .ok ((), d) := by
      rw [run_finish, hd.previous_eq]
      simp [Token.is_iff.2 he]
    rw [valueStatement, run_bind_of_ok _ (h.reads_expression c d hd trivial),
      run_bind_of_ok _ hfinish, run_pure]
  | plain h he =>
    obtain ⟨e, hce, hed⟩ := Cursor.passes_append_iff.1 hd
    have hends : Ends e.rest := by
      rw [hed.rest_eq]
      exact ends_semicolon he _
    have hfinish : finish.run e = .ok ((), d) := by
      obtain ⟨init, last, rfl, hlast⟩ := h.exists_last
      rw [run_finish, hce.previous_eq]
      simp only [Option.any_some, Token.is, beq_eq_false_iff_ne.2 hlast, Bool.false_eq_true,
        if_false]
      exact run_expect_eq_ok.2 ⟨_, he, hed⟩
    have hvalue := (Expression.plain h).reads c e hce hends
    rw [valueStatement, run_bind_of_ok _ hvalue, run_bind_of_ok _ hfinish, run_pure]

/-! ### Declarations -/

theorem Initializer.reads {constant : Bool} {ts : List Token} {value? : Option Value}
    (h : Initializer constant ts value?) :
    Reads Any (initializer Rule.defaults constant) ts value? := by
  rw [initializer_eq]
  refine .of_sees fun rest _ => ?_
  cases h with
  | @none semicolon he =>
    simp only [List.cons_append, startsWith_cons_eq_true he, if_true, Bool.false_eq_true,
      if_false]
    exact (reads_skip [semicolon]).bind (reads_pure _) fun _ _ => trivial
  | @some _ equals ts v he h =>
    have hsees : startsWith (equals :: ts ++ rest) ";" = false :=
      startsWith_cons_eq_false (by simp [he])
    simp only [hsees, Bool.false_eq_true, if_false]
    exact Reads.cons (reads_expect _ he) (h.reads.of_any.bind_pure _)

theorem Modified.forall_isModifier {ms : List Token} {m : Modifiers} (h : Modified ms m) :
    ∀ t ∈ ms, isModifier t = true := by
  cases h <;> simp_all [isModifier_iff]

private theorem Modified.foldlM_eq_some {ms : List Token} {m : Modifiers} (h : Modified ms m) :
    ms.foldlM (fun seen t => seen.add? t.value) ⟨false, false⟩ = some m := by
  cases h <;> simp_all [Modifiers.add?]

private theorem reads_modifiersBehind {ms rest : List Token} {seen m : Modifiers}
    (hms : ∀ t ∈ ms, isModifier t = true)
    (hfold : ms.foldlM (fun seen t => seen.add? t.value) seen = some m)
    (hrest : ∀ t, rest.head? = some t → isModifier t = false) :
    Reads (· = rest) (modifiersBehind seen (ms ++ rest)) ms m := by
  induction ms generalizing seen with
  | nil =>
    cases hfold
    cases rest with
    | nil => exact reads_pure m
    | cons t rest =>
      rw [List.nil_append, modifiersBehind, hrest t rfl]
      exact reads_pure m
  | cons t ms ih =>
    obtain ⟨ht, hms⟩ := List.forall_mem_cons.1 hms
    rw [List.foldlM_cons] at hfold
    obtain ⟨more, hmore, hfold⟩ := Option.bind_eq_some_iff.1 hfold
    rw [List.cons_append, modifiersBehind, ht, hmore]
    exact Reads.cons (reads_skip [t]) (ih hms hfold)

theorem Modified.reads {ms : List Token} {m : Modifiers} (h : Modified ms m) :
    Reads (fun rest => ∀ t, rest.head? = some t → isModifier t = false) modifiers ms m :=
  .of_upcoming fun _ hrest => reads_modifiersBehind h.forall_isModifier h.foldlM_eq_some hrest

private theorem DeclaredParameter.reads {ts : List Token} {p : Parameter}
    (h : DeclaredParameter ts p) : Reads Any parameter ts p := by
  intro c d hd _
  cases h with
  | @intro ts type name ht hn =>
    obtain ⟨e, hce, hed⟩ := Cursor.passes_append_iff.1 hd
    have hposition : c.position = start ts := by
      cases ht with
      | intro _ _ => exact hce.position_eq
    have hfollow : suffixLength e.rest = 0 := by
      rw [hed.rest_eq]
      exact suffixLength_eq_zero (hn.noSuffix _)
    rw [parameter, run_bind_of_ok _ (run_here c), run_bind_of_ok _ (ht.reads c e hce hfollow),
      run_bind_of_ok _ (reads_identifier hn e d hed trivial), run_pure, hposition]

private theorem Items.imp {R : List Token → α → Prop} {ts : List Token} {as : List α}
    (h : Items item ts as) (hR : ∀ us a, item us a → R us a) : Items R ts as := by
  induction h with
  | last h hr => exact .last (hR _ _ h) hr
  | more h hc _ ih => exact .more (hR _ _ h) hc ih

private theorem DeclaredParameter.exists_first {ts : List Token} {p : Parameter}
    (h : DeclaredParameter ts p) : ∃ t us, ts = t :: us ∧ Word t := by
  cases h with
  | intro ht _ =>
    cases ht with
    | intro hw _ => exact ⟨_, _, rfl, hw⟩

theorem Parenthesized.reads_parameters {ts : List Token} {ps : List Parameter}
    (h : Parenthesized DeclaredParameter ts ps) : Reads Any (parenthesized parameter) ts ps := by
  cases h with
  | none hl hr => exact reads_parenthesized_none _ hl hr
  | some hl h =>
    refine reads_parenthesized_some hl (h.imp fun us p hp => hp.reads.of_any) ?_
    refine h.startsWith_eq_false fun us p hp => ?_
    obtain ⟨t, vs, rfl, ht⟩ := hp.exists_first
    exact ⟨t, vs, rfl, ht.ne (by decide)⟩

end Script.Grammar
