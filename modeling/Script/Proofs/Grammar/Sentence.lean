import Script.Proofs.Grammar.Completeness
/-!
# Sentences are read

A sentence is known by its first tokens: no rule claims it unless it is a step, and the questions
that the parser asks of the tokens ahead are answered inside of the sentence.
-/

namespace Script.Grammar

open Script.Parser

/-! ### First tokens -/

theorem Modified.word {ms : List Token} {m : Modifiers} (h : Modified ms m) :
    ∀ t ∈ ms, Word t ∧ t.value ∉ statementWords := by
  intro t ht
  rcases isModifier_iff.1 (h.forall_isModifier t ht) with he | he <;>
    rw [Word, he] <;> decide

theorem declared_shape {ms ts : List Token} {m : Modifiers} {word name : Token} {s : String}
    (us : List Token) (hm : Modified ms m) (hw : Word word) (hs : Suffixes ts s) (hn : Word name) :
    ∃ first second more, ms ++ (word :: (ts ++ name :: us)) = first :: second :: more ∧
      Word first ∧ (Word second ∨ second.value = "[]" ∨ second.value = "[") := by
  have hms := hm.word
  cases ms with
  | nil =>
    cases hs with
    | nil => exact ⟨word, name, us, rfl, hw, .inl hn⟩
    | joined ht _ => exact ⟨word, _, _, rfl, hw, .inr (.inl ht)⟩
    | split hl _ _ => exact ⟨word, _, _, rfl, hw, .inr (.inr hl)⟩
  | cons e ms =>
    cases ms with
    | nil => exact ⟨e, word, _, rfl, (hms e (by simp)).1, .inl hw⟩
    | cons c more => exact ⟨e, c, _, rfl, (hms e (by simp)).1, .inl (hms c (by simp)).1⟩

theorem Sentence.exists_first {ts : List Token} {element? : Option Element}
    (h : Sentence ts element?) : ∃ t us, ts = t :: us ∧ (t.value = ";" ∨ Opens t) := by
  have hword : ∀ {t : Token}, Word t → t.value = ";" ∨ Opens t :=
    fun hw => .inr (.inr (.inr (.inr hw.notMem_signs)))
  cases h with
  | empty he => exact ⟨_, _, rfl, .inl he⟩
  | step h =>
    obtain ⟨t, us, rfl, ht⟩ := h.exists_first
    exact ⟨t, us, rfl, .inr ht⟩
  | returned hw _ =>
    refine ⟨_, _, rfl, hword ?_⟩
    rw [Word, hw]
    decide
  | call hn _ _ _ => exact ⟨_, _, rfl, hword hn⟩
  | group hl _ _ _ _ _ => exact ⟨_, _, rfl, .inr (.inl hl)⟩
  | declared hm ht _ _ hn _ _ =>
    cases ht with
    | intro hw hs =>
      obtain ⟨first, second, more, heq, hfirst, -⟩ := declared_shape _ hm hw hs hn
      exact ⟨first, _, heq, hword hfirst⟩
  | @function ms _ _ _ _ func _ _ _ _ _ _ hm hf _ _ _ _ _ _ =>
    have hms := hm.word
    cases ms with
    | nil =>
      refine ⟨func, _, rfl, hword ?_⟩
      rw [Word, hf]
      decide
    | cons e ms => exact ⟨e, _, rfl, hword (hms e (by simp)).1⟩
  | assigned hn _ _ _ _ => exact ⟨_, _, rfl, hword hn⟩

/-! ### Which statement it is -/

section Dispatch

variable {rules : List Rule} {p : Parser (Option Element)} {token : Token} {rest : List Token}

private theorem statement_of_return (h : token.value = "return") :
    statement rules p token rest = do return .value (← returning rules) := by
  unfold Parser.statement
  simp only [returns_iff.2 h, if_true]

private theorem statement_of_parenthesis (hs : token.value ∉ statementWords)
    (hl : startsWith rest "(" = true) :
    statement rules p token rest = do return .value (← valueStatement rules) := by
  obtain ⟨hreturn, hcontrol⟩ := notMem_statementWords_iff.1 hs
  unfold Parser.statement
  simp only [hreturn, hcontrol, hl, if_true, if_false, Bool.false_eq_true]

theorem statement_of_declares (hs : token.value ∉ statementWords)
    (hl : startsWith rest "(" = false) (hd : declares (token :: rest) = true) :
    statement rules p token rest = do return .declaration (← declaration rules p) := by
  obtain ⟨hreturn, hcontrol⟩ := notMem_statementWords_iff.1 hs
  unfold Parser.statement
  simp only [hreturn, hcontrol, hl, hd, if_true, if_false, Bool.false_eq_true]

private theorem statement_of_function (hf : token.value = "func") (hl : startsWith rest "(" = false)
    (hd : declares (token :: rest) = false) :
    statement rules p token rest =
      do return .declaration (← function p false token.position) := by
  unfold Parser.statement
  simp only [functions_iff.2 hf, hl, hd, Option.some.injEq, reduceCtorEq, Option.any_some,
    Keyword.isStatement, if_true, if_false, Bool.false_eq_true]

theorem statement_of_assignment (hs : token.value ∉ statementWords)
    (hf : token.value ≠ "func") (hl : startsWith rest "(" = false)
    (hd : declares (token :: rest) = false) (he : startsWith rest "=" = true) :
    statement rules p token rest = do return .assignment (← assignment rules) := by
  obtain ⟨hreturn, hcontrol⟩ := notMem_statementWords_iff.1 hs
  have hfunc : Keyword.ofText? token.value ≠ some .funcWord := fun h => hf (functions_iff.1 h)
  unfold Parser.statement
  simp only [hreturn, hcontrol, hl, hd, hfunc, he, if_true, if_false, Bool.false_eq_true]

end Dispatch

/-! ### Looking ahead for a declaration -/

theorem Suffixes.suffixLength_add {ts : List Token} {s : String} (h : Suffixes ts s)
    (rest : List Token) : suffixLength (ts ++ rest) = ts.length + suffixLength rest := by
  induction h with
  | nil => simp
  | joined ht _ ih =>
    rw [List.cons_append, suffixLength_joined ht, ih, List.length_cons, Nat.add_right_comm]
  | split hl hr _ ih =>
    rw [List.cons_append, List.cons_append, suffixLength_split hl hr, ih, List.length_cons,
      List.length_cons, Nat.add_right_comm]

private theorem Suffixes.suffixLength_append {ts rest : List Token} {s : String} (h : Suffixes ts s)
    (hrest : NoSuffix rest) : suffixLength (ts ++ rest) = ts.length := by
  rw [h.suffixLength_add, suffixLength_eq_zero hrest, Nat.add_zero]

private theorem Initializer.exists_first {constant : Bool} {us : List Token} {value? : Option Value}
    (h : Initializer constant us value?) :
    ∃ t vs, us = t :: vs ∧ (t.value = ";" ∨ t.value = "=") := by
  cases h with
  | none he => exact ⟨_, _, rfl, .inl he⟩
  | some he _ => exact ⟨_, _, rfl, .inr he⟩

theorem declares_of_isModifier {token : Token} {rest : List Token}
    (h : isModifier token = true) : declares (token :: rest) = true := by
  simp [declares, h]

private theorem declares_of_typeName {word name : Token} {ts us rest : List Token} {s : String}
    (hs : Suffixes ts s) (hn : Word name)
    (hus : ∃ t vs, us = t :: vs ∧ (t.value = ";" ∨ t.value = "=")) :
    declares (word :: (ts ++ name :: us) ++ rest) = true := by
  obtain ⟨t, vs, rfl, ht⟩ := hus
  have hlength : suffixLength (ts ++ name :: t :: vs ++ rest) = ts.length := by
    rw [List.append_assoc]
    exact hs.suffixLength_append (hn.noSuffix _)
  have hdrop : (word :: (ts ++ name :: t :: vs) ++ rest).drop (1 + ts.length) =
      name :: t :: (vs ++ rest) := by
    rw [Nat.add_comm, List.cons_append, List.drop_succ_cons, List.append_assoc, List.drop_left]
    rfl
  have hbehind : (startsWith (t :: (vs ++ rest)) ";" || startsWith (t :: (vs ++ rest)) "=") =
      true := by
    simpa using ht
  unfold declares
  simp only [List.cons_append, List.drop_succ_cons, List.drop_zero, hlength]
  rw [← List.cons_append, hdrop]
  simp only [hbehind, Bool.or_true]

/-- Nothing is declared where a word stands before a sign and no assignment sign comes next. -/
theorem declares_eq_false {token sign : Token} {rest : List Token}
    (hm : isModifier token = false) (hsuffix : sign.value ≠ "[]" ∧ sign.value ≠ "[")
    (hsecond : startsWith rest "=" = false) (hend : startsWith rest ";" = false) :
    declares (token :: sign :: rest) = false := by
  have hlength : suffixLength (sign :: rest) = 0 := by
    refine suffixLength_eq_zero fun t ht => ?_
    obtain rfl : sign = t := by simpa using ht
    exact hsuffix
  simp [declares, hm, hlength, hsecond, hend]

/-! ### Reading a sentence -/

section Reading

variable {p : Parser (Option Element)}

/-- A sentence that no rule claims is read as the statement that its first tokens make it. -/
theorem reads_elementBody {token : Token} {us : List Token} {element : Element}
    (hsemicolon : token.value ≠ ";")
    (hstep : ∀ rest, Rule.stepApplies (token :: (us ++ rest)) = false)
    (h : ∀ rest, Reads (· = rest) (statement Rule.defaults p token (us ++ rest)) (token :: us)
      element) :
    Reads Any (elementBody Rule.defaults p) (token :: us) (some element) := by
  have hfirst : token.is ";" = false := beq_eq_false_iff_ne.2 hsemicolon
  refine .of_upcoming fun rest _ => ?_
  simp only [List.cons_append, hfirst, Bool.false_eq_true, if_false]
  intro c d hd hrest
  have hnone : Rule.stepApplies c.rest = false := by
    rw [hd.rest_eq]
    exact hstep d.rest
  rw [run_bind_of_ok _ (run_byRule_of_not hnone)]
  exact (h rest).bind_pure some c d hd hrest

theorem reads_empty {semicolon : Token} (he : semicolon.value = ";") :
    Reads Any (elementBody Rule.defaults p) [semicolon] none := by
  refine .of_upcoming fun rest _ => ?_
  simp only [List.cons_append, Token.is_iff.2 he, if_true]
  exact (reads_skip [semicolon]).bind (reads_pure none) fun _ _ => trivial

theorem reads_step {ts : List Token} {v : Value} (h : Step ts v) :
    Reads Any (elementBody Rule.defaults p) ts (some (.value v)) := by
  obtain ⟨token, us, rfl, ht⟩ := h.exists_first
  have hfirst : token.is ";" = false := beq_eq_false_iff_ne.2 (ht.ne (by decide) (by decide))
  refine .of_upcoming fun rest _ => ?_
  simp only [List.cons_append, hfirst, Bool.false_eq_true, if_false]
  intro c d hd _
  rw [run_bind_of_ok _ (h.reads false c d hd trivial)]
  rfl

private theorem Terminated.stepApplies_cons {word : Token} {ts : List Token} {v : Value}
    (h : Terminated ts v) (hw : Word word) (rest : List Token) :
    Rule.stepApplies (word :: (ts ++ rest)) = false := by
  cases h with
  | step h =>
    cases h with
    | before _ hn _ => exact stepApplies_of_third (hn.ne (by decide))
    | behind hn _ _ => exact stepApplies_of_word hw hn.notMem_signs
  | plain h _ =>
    cases h with
    | group hl _ _ => exact stepApplies_of_second (foreign_of_eq hl (by decide))
    | call hn _ => exact stepApplies_of_word hw hn.notMem_signs
    | literal h => exact stepApplies_of_word hw (notMem_signs_of_literal h)
    | reference _ hn => exact stepApplies_of_word hw hn.notMem_signs

theorem reads_returned {word : Token} {ts : List Token} {v : Value} (hw : word.value = "return")
    (h : Terminated ts v) :
    Reads Any (elementBody Rule.defaults p) (word :: ts)
      (some (.value (.call ⟨"return", true, [v], word.position⟩))) := by
  have hword : Word word := by
    rw [Word, hw]
    decide
  refine reads_elementBody (by simp [hw]) (h.stepApplies_cons hword) fun rest => ?_
  rw [statement_of_return hw, returning_eq]
  simp only [bind_assoc, pure_bind]
  exact Reads.cons (reads_token word) (h.reads.of_any.bind_pure _)

theorem reads_valueStatement {token left : Token} {us : List Token} {v : Value}
    (h : Terminated (token :: left :: us) v) (hl : left.value = "(")
    (hsemicolon : token.value ≠ ";") (hs : token.value ∉ statementWords) :
    Reads Any (elementBody Rule.defaults p) (token :: left :: us) (some (.value v)) := by
  refine reads_elementBody hsemicolon
    (fun rest => stepApplies_of_second (foreign_of_eq hl (by decide))) fun rest => ?_
  rw [List.cons_append, statement_of_parenthesis hs (startsWith_cons_eq_true hl)]
  exact h.reads.of_any.bind_pure _

private theorem position_eq_start {c d : Cursor} {ts us : List Token} {token : Token}
    (h : c.Passes (ts ++ token :: us) d) : c.position = start (ts ++ [token]) := by
  cases ts with
  | nil => exact h.position_eq
  | cons first ts => exact h.position_eq

private theorem startsWith_func_eq_false {word : Token} {rest : List Token}
    (hd : word.value ∉ declarationWords) : startsWith (word :: rest) "func" = false := by
  refine startsWith_cons_eq_false fun he => hd ?_
  rw [he]
  decide

theorem isModifier_eq_false_of_head? {word : Token} {rest : List Token}
    (h : isModifier word = false) : ∀ t, (word :: rest).head? = some t → isModifier t = false := by
  intro t ht
  obtain rfl := Option.some.inj ht
  exact h

/-- The parser binds a name to what the grammar says. -/
theorem Bound.eq_binding {type : String} {constant : Bool} {value? : Option Value}
    {bound : Binding Element} (h : Bound type constant value? bound) :
    bound = binding constant type value? := by
  cases h with
  | constant v => rfl
  | changeable value? => cases value? <;> rfl

private theorem reads_declaration {ms ts us : List Token} {m : Modifiers} {word name : Token}
    {type : String} {value? : Option Value} (hm : Modified ms m)
    (ht : TypeName (word :: ts) type) (hd : word.value ∉ declarationWords) (hn : Word name)
    (h : Initializer m.constant us value?) :
    Reads Any (declaration Rule.defaults p) (ms ++ (word :: (ts ++ name :: us)))
      ⟨name.value, m.exported, start (ms ++ [word]), binding m.constant type value?⟩ := by
  intro c d hpass _
  have hposition := position_eq_start hpass
  obtain ⟨e, hce, hed⟩ := Cursor.passes_append_iff.1 hpass
  have hed' : e.Passes ((word :: ts) ++ name :: us) d := hed
  obtain ⟨f, hef, hfd⟩ := Cursor.passes_append_iff.1 hed'
  have hmodifiers : modifiers.run c = .ok (m, e) := by
    refine hm.reads c e hce ?_
    rw [hed.rest_eq]
    exact isModifier_eq_false_of_head? (notMem_declarationWords_iff.1 hd).1
  have hfunc : startsWith e.rest "func" = false := by
    rw [hed.rest_eq]
    exact startsWith_func_eq_false hd
  have htype : typeName.run e = .ok (type, f) := by
    refine ht.reads e f hef ?_
    rw [hfd.rest_eq]
    exact suffixLength_eq_zero (hn.noSuffix _)
  rw [declaration, run_bind_of_ok _ (run_here c), run_bind_of_ok _ hmodifiers,
    run_bind_of_ok _ (run_sees "func" e)]
  simp only [hfunc, Bool.false_eq_true, if_false]
  rw [run_bind_of_ok _ htype, hposition]
  obtain ⟨g, hfg, hgd⟩ := Cursor.passes_append_iff.1
    (show f.Passes ([name] ++ us) d from hfd)
  rw [run_bind_of_ok _ (reads_identifier hn f g hfg trivial),
    run_bind_of_ok _ (h.reads g d hgd trivial)]
  rfl

private theorem Terminated.exists_first {ts : List Token} {v : Value} (h : Terminated ts v) :
    ∃ t us, ts = t :: us ∧ Opens t := by
  cases h with
  | step h => exact h.exists_first
  | plain h _ =>
    obtain ⟨t, us, rfl, ht⟩ := h.exists_first
    exact ⟨t, _, rfl, ht⟩

theorem reads_declared {ms ts us : List Token} {m : Modifiers} {word name : Token}
    {type : String} {value? : Option Value} {bound : Binding Element} (hm : Modified ms m)
    (ht : TypeName (word :: ts) type) (hd : word.value ∉ declarationWords)
    (hs : ms = [] → word.value ∉ statementWords) (hn : Word name)
    (h : Initializer m.constant us value?) (hb : Bound type m.constant value? bound) :
    Reads Any (elementBody Rule.defaults p) (ms ++ (word :: (ts ++ name :: us)))
      (some (.declaration ⟨name.value, m.exported, start (ms ++ [word]), bound⟩)) := by
  rw [hb.eq_binding]
  obtain ⟨hword, hsuffixes⟩ : Word word ∧ ∃ s, Suffixes ts s := by
    cases ht with
    | intro hw hs => exact ⟨hw, _, hs⟩
  obtain ⟨s, hsuffixes⟩ := hsuffixes
  have hreads := reads_declaration (p := p) hm ht hd hn h
  have hdeclares : ∀ rest, declares (ms ++ (word :: (ts ++ name :: us)) ++ rest) = true := by
    intro rest
    have hms := hm.forall_isModifier
    cases ms with
    | nil => exact declares_of_typeName hsuffixes hn h.exists_first
    | cons e ms => exact declares_of_isModifier (hms e (by simp))
  have hstatement : ∀ t, (ms ++ [word]).head? = some t → t.value ∉ statementWords := by
    intro t ht
    have hms := hm.word
    cases ms with
    | nil =>
      obtain rfl := Option.some.inj ht
      exact hs rfl
    | cons e ms =>
      obtain rfl := Option.some.inj ht
      exact (hms e (by simp)).2
  have hhead : (ms ++ [word]).head? = (ms ++ (word :: (ts ++ name :: us))).head? := by
    cases ms <;> rfl
  rw [hhead] at hstatement
  obtain ⟨first, second, more, heq, hfirst, hsecond⟩ :=
    declared_shape us hm hword hsuffixes hn
  rw [heq] at hreads hdeclares hstatement ⊢
  have hparenthesis : second.value ≠ "(" := by
    rcases hsecond with hw | h | h
    · exact hw.ne (by decide)
    · simp [h]
    · simp [h]
  refine reads_elementBody (hfirst.ne (by decide)) (fun rest => ?_) fun rest => ?_
  · rcases hsecond with hw | h | h
    · exact stepApplies_of_word hfirst hw.notMem_signs
    · exact stepApplies_of_second (foreign_of_eq h (by decide))
    · exact stepApplies_of_second (foreign_of_eq h (by decide))
  · have hdeclaration : statement Rule.defaults p first (second :: more ++ rest) = _ :=
      statement_of_declares (hstatement first rfl) (startsWith_cons_eq_false hparenthesis)
        (hdeclares rest)
    rw [hdeclaration]
    exact hreads.of_any.bind_pure _

private theorem reads_function {exported : Bool} {position : Position} {func name left : Token}
    {ps ts us : List Token} {parameters : List Parameter} {returnType : String}
    {body : List Element} (hf : func.value = "func") (hn : Word name)
    (hp : Parenthesized DeclaredParameter ps parameters) (ht : TypeName ts returnType)
    (hl : left.value = "\x7b") (hb : Reads Any (recursive (blockBody p)) us body) :
    Reads Any (function p exported position)
      (func :: name :: (ps ++ (ts ++ left :: us)))
      ⟨name.value, exported, position, .function ⟨returnType, parameters, body⟩⟩ := by
  refine Reads.cons (reads_expect _ hf) (Reads.cons (reads_identifier hn) ?_)
  refine hp.reads_parameters.bind (ht.reads.bind ?_ fun rest _ => ?_) fun _ _ => trivial
  · exact Reads.cons (reads_expect _ hl) (hb.bind_pure _)
  · refine suffixLength_eq_zero fun t h => ?_
    obtain rfl := Option.some.inj h
    simp [hl]

theorem reads_function_sentence {ms ps ts us : List Token} {exported : Bool}
    {func name left : Token} {parameters : List Parameter} {returnType : String}
    {body : List Element} (hm : Modified ms ⟨exported, false⟩) (hf : func.value = "func")
    (hn : Word name) (hp : Parenthesized DeclaredParameter ps parameters)
    (ht : TypeName ts returnType) (hl : left.value = "\x7b")
    (hb : Reads Any (recursive (blockBody p)) us body) :
    Reads Any (elementBody Rule.defaults p)
      (ms ++ (func :: name :: (ps ++ (ts ++ left :: us))))
      (some (.declaration ⟨name.value, exported, start (ms ++ [func]),
        .function ⟨returnType, parameters, body⟩⟩)) := by
  have hfunc : Word func ∧ isModifier func = false := by
    rw [Word, isModifier, hf]
    decide
  cases hm with
  | none =>
    obtain ⟨left', us', rfl, hl'⟩ := hp.exists_first
    refine reads_elementBody (by simp [hf])
      (fun rest => stepApplies_of_word hfunc.1 hn.notMem_signs) fun rest => ?_
    have hdeclares : declares (func :: name :: left' :: (us' ++ (ts ++ left :: us) ++ rest)) =
        false :=
      declares_eq_false hfunc.2 ⟨hn.ne (by decide), hn.ne (by decide)⟩
        (startsWith_cons_eq_false (by simp [hl'])) (startsWith_cons_eq_false (by simp [hl']))
    have hfunction : statement Rule.defaults p func
        (name :: left' :: (us' ++ (ts ++ left :: us) ++ rest)) = _ :=
      statement_of_function hf (startsWith_cons_eq_false (hn.ne (by decide))) hdeclares
    simp only [List.cons_append]
    rw [hfunction]
    exact (reads_function hf hn hp ht hl hb).of_any.bind_pure _
  | @exported e he =>
    have hword : Word e ∧ e.value ∉ statementWords := by
      rw [Word, he]
      decide
    refine reads_elementBody (by simp [he])
      (fun rest => stepApplies_of_word hword.1 hfunc.1.notMem_signs) fun rest => ?_
    have hdeclaration : statement Rule.defaults p e
        (func :: (name :: (ps ++ (ts ++ left :: us)) ++ rest)) = _ :=
      statement_of_declares hword.2 (startsWith_cons_eq_false (by simp [hf]))
        (declares_of_isModifier (isModifier_iff.2 (.inl he)))
    show Reads _ (statement Rule.defaults p e
      (func :: (name :: (ps ++ (ts ++ left :: us)) ++ rest))) _ _
    rw [hdeclaration]
    refine Reads.bind_pure ?_ _
    intro c d hpass hrest
    obtain ⟨k, hck, hkd⟩ := Cursor.passes_append_iff.1
      (show c.Passes ([e] ++ func :: name :: (ps ++ (ts ++ left :: us))) d from hpass)
    have hmodifiers : modifiers.run c = .ok (⟨true, false⟩, k) := by
      refine (Modified.exported he).reads c k hck ?_
      rw [hkd.rest_eq]
      exact isModifier_eq_false_of_head? hfunc.2
    have hsees : startsWith k.rest "func" = true := by
      rw [hkd.rest_eq]
      exact startsWith_cons_eq_true hf
    rw [declaration, run_bind_of_ok _ (run_here c), run_bind_of_ok _ hmodifiers,
      run_bind_of_ok _ (run_sees "func" k), hpass.position_eq]
    simp only [hsees, if_true, Bool.false_eq_true, if_false]
    exact reads_function hf hn hp ht hl hb k d hkd trivial

theorem reads_assigned {name equals : Token} {ts : List Token} {v : Value} (hn : Word name)
    (hs : name.value ∉ statementWords) (hd : name.value ∉ declarationWords)
    (he : equals.value = "=") (h : Terminated ts v) :
    Reads Any (elementBody Rule.defaults p) (name :: equals :: ts)
      (some (.assignment ⟨name.value, v, name.position⟩)) := by
  obtain ⟨first, us, rfl, hfirst⟩ := h.exists_first
  obtain ⟨hmodifier, hfunc⟩ := notMem_declarationWords_iff.1 hd
  rw [Ne, functions_iff] at hfunc
  refine reads_elementBody (hn.ne (by decide))
    (fun rest => stepApplies_of_second (foreign_of_eq he (by decide))) fun rest => ?_
  have hdeclares : declares (name :: equals :: (first :: us ++ rest)) = false :=
    declares_eq_false hmodifier (by simp [he])
      (startsWith_cons_eq_false (hfirst.ne (by decide) (by decide)))
      (startsWith_cons_eq_false (hfirst.ne (by decide) (by decide)))
  rw [List.cons_append, statement_of_assignment hs hfunc
    (startsWith_cons_eq_false (by simp [he])) hdeclares (startsWith_cons_eq_true he),
    assignment_eq]
  simp only [bind_assoc, pure_bind]
  exact Reads.cons (reads_identifier hn)
    (Reads.cons (reads_expect _ he) (h.reads.of_any.bind_pure _))

end Reading

/-! ### Reading sentences inside of sentences -/

theorem reads_call_statement {name semicolon : Token} {ts : List Token} {vs : List Value}
    {p : Parser (Option Element)} (hn : Word name) (hs : name.value ∉ statementWords)
    (h : Parenthesized Expression ts vs) (he : semicolon.value = ";") :
    Reads Any (elementBody Rule.defaults p) (name :: (ts ++ [semicolon]))
      (some (.value (.call ⟨name.value, false, vs, name.position⟩))) := by
  have hterminated := Terminated.plain (.call hn h) he
  obtain ⟨left, us, rfl, hl⟩ := h.exists_first
  exact reads_valueStatement hterminated hl (hn.ne (by decide)) hs

theorem reads_group_statement {left left' right' right semicolon : Token} {ts : List Token}
    {v : Value} {p : Parser (Option Element)} (hl : left.value = "(") (hl' : left'.value = "(")
    (h : Expression ts v) (hr' : right'.value = ")") (hr : right.value = ")")
    (he : semicolon.value = ";") :
    Reads Any (elementBody Rule.defaults p)
      (left :: left' :: (ts ++ [right', right, semicolon])) (some (.value v)) := by
  have hterminated := Terminated.plain (.group hl (.plain (.group hl' h hr')) hr) he
  simp only [List.cons_append, List.append_assoc, List.nil_append] at hterminated
  exact reads_valueStatement hterminated hl' (by simp [hl]) (by rw [hl]; decide)

theorem reads_block_nil {right : Token} (hr : right.value = "\x7d") :
    Reads Any (recursive (blockBody (element Rule.defaults))) [right] [] := by
  rw [block_eq]
  refine .of_upcoming fun rest _ => ?_
  simp only [List.cons_append, Token.is_iff.2 hr, if_true]
  exact (reads_skip [right]).bind (reads_pure []) fun _ _ => trivial

theorem reads_block_cons {ts us : List Token} {element? : Option Element}
    {elements : List Element} (hfirst : ∃ t vs, ts = t :: vs ∧ (t.value = ";" ∨ Opens t))
    (h : Reads Any (element Rule.defaults) ts element?)
    (hs : Reads Any (recursive (blockBody (element Rule.defaults))) us elements) :
    Reads Any (recursive (blockBody (element Rule.defaults))) (ts ++ us)
      (element?.toList ++ elements) := by
  obtain ⟨t, vs, rfl, ht⟩ := hfirst
  have hclosing : t.is "\x7d" = false := by
    refine beq_eq_false_iff_ne.2 ?_
    rcases ht with he | ho
    · simp [he]
    · exact ho.ne (by decide) (by decide)
  rw [block_eq]
  refine .of_upcoming fun rest _ => ?_
  simp only [List.cons_append, hclosing, Bool.false_eq_true, if_false]
  exact (h.bind (hs.bind_pure _) fun _ _ => trivial).of_any

mutual

/-- A sentence is read, whatever stands behind it. -/
theorem Sentence.reads {ts : List Token} {element? : Option Element} :
    Sentence ts element? → Reads Any (element Rule.defaults) ts element?
  | .empty he => element_eq _ ▸ reads_empty he
  | .step h => element_eq _ ▸ reads_step h
  | .returned hw h => element_eq _ ▸ reads_returned hw h
  | .call hn hs h he => element_eq _ ▸ reads_call_statement hn hs h he
  | .group hl hl' h hr' hr he => element_eq _ ▸ reads_group_statement hl hl' h hr' hr he
  | .declared hm ht hd hs hn h hb => element_eq _ ▸ reads_declared hm ht hd hs hn h hb
  | .function hm hf hn hp ht hl h hr =>
    element_eq _ ▸ reads_function_sentence hm hf hn hp ht hl (Program.reads_block hr h)
  | .assigned hn hs hd he h => element_eq _ ▸ reads_assigned hn hs hd he h

theorem Program.reads_block {ts : List Token} {elements : List Element} {right : Token}
    (hr : right.value = "\x7d") : Program ts elements →
      Reads Any (recursive (blockBody (element Rule.defaults))) (ts ++ [right]) elements
  | .nil => reads_block_nil hr
  | .cons h hs => by
    rw [List.append_assoc]
    exact reads_block_cons h.exists_first (Sentence.reads h) (Program.reads_block hr hs)

end

end Script.Grammar
