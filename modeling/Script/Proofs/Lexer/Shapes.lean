import Script.Proofs.Lexer.Gaps
import Script.Proofs.Lexer.Operators
/-!
# Texts of tokens

A token is a string, an operator or a word. Of strings the text alone tells that they are tokens;
for an operator and for a word it matters what follows. The lexer reads the tokens described here,
and these only.
-/

namespace Script.Lexer

/-- What stands behind the opening quote of a string, the closing quote with it. A backslash takes
the character after it along. -/
inductive Closes (quote : Char) : List Char → Prop
  | quote : Closes quote [quote]
  | escape {c : Char} {text : List Char} (hc : c ≠ '\n') (h : Closes quote text) :
      Closes quote ('\\' :: c :: text)
  | plain {c : Char} {text : List Char} (hquote : c ≠ quote) (hnewline : c ≠ '\n')
      (hslash : c ≠ '\\') (h : Closes quote text) : Closes quote (c :: text)

/-- A word goes on with any character that is no blank and begins no operator. -/
structure InWord (c : Char) : Prop where
  isBlank : Text.isBlank c = false
  isOperator : isOperator [c] = false

inductive ReadBefore (rest : List Char) : List Char → Prop
  | string {quote : Char} {body : List Char} (hquote : isQuote quote = true)
      (hbody : Closes quote body) : ReadBefore rest (quote :: body)
  /-- No longer operator begins here, and no comment. -/
  | operator {text : List Char} (h : isOperator text = true)
      (hlongest : ∀ c ∈ rest.head?, isOperator (text ++ [c]) = false)
      (hcomment : text = ['/'] → rest.head? ≠ some '/') : ReadBefore rest text
  | word {c : Char} {text : List Char} (hquote : isQuote c = false)
      (hword : ∀ d ∈ c :: text, InWord d) (hend : ∀ d ∈ rest.head?, ¬InWord d) :
      ReadBefore rest (c :: text)

/-- A string begins with the quote, and nothing in the text behind it closes it. -/
structure OpensString (quote : Char) (text : List Char) : Prop where
  isQuote : isQuote quote = true
  not_closes {body rest : List Char} (h : text = body ++ rest) : ¬Closes quote body

variable {quote c : Char} {text rest token : List Char} {n : Nat}

/-! ### Strings -/

theorem isQuote_iff : isQuote c = true ↔ c = '"' ∨ c = '\'' := by
  simp [isQuote]

theorem ne_of_isQuote (hq : isQuote quote = true) (hc : isQuote c = false) : quote ≠ c := by
  rintro rfl
  rw [hq] at hc
  cases hc

private theorem isBlank_of_isQuote (hq : isQuote quote = true) : Text.isBlank quote = false := by
  rcases isQuote_iff.1 hq with rfl | rfl <;> decide

theorem gapLength_quote (hq : isQuote quote = true) (text : List Char) :
    gapLength false (quote :: text) = 0 :=
  gapLength_eq_zero_iff.2
    ⟨isBlank_of_isQuote hq, fun hslash => absurd hslash (ne_of_isQuote hq rfl)⟩

private theorem closingLength?_quote (quote : Char) (rest : List Char) :
    closingLength? quote (quote :: rest) = some 1 := by
  rw [closingLength?.eq_def]
  simp

private theorem closingLength?_backslash {d : Char} (hq : quote ≠ '\\') (hd : d ≠ '\n')
    (rest : List Char) :
    closingLength? quote ('\\' :: d :: rest) = (closingLength? quote rest).map (· + 2) := by
  rw [closingLength?.eq_def]
  simp [hq.symm, hd]

private theorem closingLength?_other (hq : c ≠ quote) (hn : c ≠ '\n') (hs : c ≠ '\\')
    (rest : List Char) :
    closingLength? quote (c :: rest) = (closingLength? quote rest).map (· + 1) := by
  rw [closingLength?.eq_def]
  simp [hq, hn, hs]

theorem Closes.closingLength? {body : List Char} (h : Closes quote body)
    (hq : isQuote quote = true) (rest : List Char) :
    closingLength? quote (body ++ rest) = some body.length := by
  induction h with
  | quote => exact closingLength?_quote quote rest
  | escape hc h ih =>
    have hbackslash : quote ≠ '\\' := ne_of_isQuote hq rfl
    rw [List.cons_append, List.cons_append, closingLength?_backslash hbackslash hc, ih]
    rfl
  | plain hquote hnewline hslash h ih =>
    rw [List.cons_append, closingLength?_other hquote hnewline hslash, ih]
    rfl

theorem exists_closes (h : closingLength? quote text = some n) :
    ∃ body rest, text = body ++ rest ∧ Closes quote body := by
  fun_induction closingLength? quote text generalizing n with
  | case1 => cases h
  | case2 text => exact ⟨[quote], text, rfl, .quote⟩
  | case3 => cases h
  | case4 => cases h
  | case5 => cases h
  | case6 d text hd _ _ ih =>
    obtain ⟨m, hm, -⟩ := Option.map_eq_some_iff.1 h
    obtain ⟨body, rest, rfl, hbody⟩ := ih hm
    exact ⟨'\\' :: d :: body, rest, rfl, .escape hd hbody⟩
  | case7 c text hquote hnewline hslash ih =>
    obtain ⟨m, hm, -⟩ := Option.map_eq_some_iff.1 h
    obtain ⟨body, rest, rfl, hbody⟩ := ih hm
    exact ⟨c :: body, rest, rfl, .plain hquote hnewline hslash hbody⟩

theorem Closes.newline_notMem {body : List Char} (h : Closes quote body)
    (hq : isQuote quote = true) : '\n' ∉ body := by
  induction h with
  | quote =>
    have hnewline : quote ≠ '\n' := ne_of_isQuote hq rfl
    simpa using hnewline.symm
  | escape hc h ih => simp [hc.symm, ih]
  | plain hquote hnewline hslash h ih => simp [hnewline.symm, ih]

/-! ### Words -/

theorem not_inWord_of_isBlank (h : Text.isBlank c = true) : ¬InWord c := by
  intro hword
  rw [hword.isBlank] at h
  cases h

theorem not_inWord_of_isOperator (h : isOperator [c] = true) : ¬InWord c := by
  intro hword
  rw [hword.isOperator] at h
  cases h

private theorem wordLength_inWord (hc : InWord c) (text : List Char) :
    wordLength (c :: text) = wordLength text + 1 := by
  simp [wordLength, hc.isBlank, operatorLength?_eq_none hc.isOperator]

private theorem wordLength_end (h : ∀ c ∈ rest.head?, ¬InWord c) : wordLength rest = 0 := by
  cases rest with
  | nil => rfl
  | cons c rest =>
    cases hblank : Text.isBlank c with
    | true => simp [wordLength, hblank]
    | false =>
      have hoperator : isOperator [c] = true := by
        rw [← Bool.not_eq_false]
        exact fun hno => h c rfl ⟨hblank, hno⟩
      simp [wordLength, isSome_operatorLength? hoperator]

private theorem wordLength_append (h : ∀ c ∈ text, InWord c) (rest : List Char) :
    wordLength (text ++ rest) = text.length + wordLength rest := by
  induction text with
  | nil => simp
  | cons c text ih =>
    obtain ⟨hc, htext⟩ := List.forall_mem_cons.1 h
    rw [List.cons_append, wordLength_inWord hc, ih htext, List.length_cons]
    omega

/-! ### Tokens -/

theorem ReadBefore.ne_nil (h : ReadBefore rest token) : token ≠ [] := by
  cases h with
  | string => exact List.cons_ne_nil _ _
  | word => exact List.cons_ne_nil _ _
  | operator h => exact ne_nil_of_isOperator h

theorem ReadBefore.newline_notMem (h : ReadBefore rest token) : '\n' ∉ token := by
  cases h with
  | @string quote body hquote hbody =>
    have hnewline : quote ≠ '\n' := ne_of_isQuote hquote rfl
    simp [hnewline.symm, hbody.newline_notMem hquote]
  | operator h => exact fun hmem => absurd (isBlank_of_mem_operator h hmem) (by decide)
  | word hquote hword hend => exact fun hmem => absurd (hword _ hmem).isBlank (by decide)

theorem ReadBefore.closes {body : List Char} (h : ReadBefore rest (quote :: body))
    (hq : isQuote quote = true) : Closes quote body := by
  cases h with
  | string _ hbody => exact hbody
  | operator h =>
    rw [isQuote_head h] at hq
    cases hq
  | word hquote =>
    rw [hquote] at hq
    cases hq

/-- A token is a token wherever the same character follows, or a blank, or nothing. -/
theorem ReadBefore.before (h : ReadBefore rest token) {after : List Char}
    (hafter : ∀ c ∈ after.head?, rest.head? = some c ∨ Text.isBlank c = true) :
    ReadBefore after token := by
  cases h with
  | string hquote hbody => exact .string hquote hbody
  | operator h hlongest hcomment =>
    refine .operator h (fun c hc => ?_) fun htoken hslash => ?_
    · rcases hafter c hc with hsame | hblank
      · exact hlongest c hsame
      · rw [← Bool.not_eq_true]
        intro hop
        rw [isBlank_of_mem_operator hop (List.mem_append_right _ List.mem_cons_self)] at hblank
        cases hblank
    · rcases hafter '/' hslash with hsame | hblank
      · exact hcomment htoken hsame
      · exact absurd hblank (by decide)
  | word hquote hword hend =>
    refine .word hquote hword fun c hc => ?_
    rcases hafter c hc with hsame | hblank
    · exact hend c hsame
    · exact not_inWord_of_isBlank hblank

theorem ReadBefore.gapLength_eq_zero (h : ReadBefore rest token) :
    gapLength false (token ++ rest) = 0 := by
  obtain ⟨c, text, rfl⟩ := List.exists_cons_of_ne_nil h.ne_nil
  cases h with
  | string hquote hbody => exact gapLength_quote hquote _
  | operator h hlongest hcomment =>
    refine gapLength_eq_zero_iff.2 ⟨isBlank_of_mem_operator h List.mem_cons_self, ?_⟩
    rintro rfl
    obtain rfl := eq_slash_of_isOperator h
    exact hcomment rfl
  | word hquote hword hend =>
    have hc := hword _ List.mem_cons_self
    refine gapLength_eq_zero_iff.2 ⟨hc.isBlank, ?_⟩
    rintro rfl
    exact absurd hc.isOperator (by decide)

theorem ReadBefore.tokenLength? (h : ReadBefore rest (c :: text)) :
    tokenLength? c (text ++ rest) = some (text.length + 1) := by
  rw [Lexer.tokenLength?]
  cases h with
  | string hquote hbody =>
    rw [if_pos hquote, hbody.closingLength? hquote]
    rfl
  | operator h hlongest hcomment =>
    have hlength := operatorLength?_append h hlongest
    rw [List.cons_append] at hlength
    simp [isQuote_head h, hlength]
  | word hquote hword hend =>
    obtain ⟨hc, htext⟩ := List.forall_mem_cons.1 hword
    have hlength : wordLength (text ++ rest) = text.length := by
      rw [wordLength_append htext, wordLength_end hend, Nat.add_zero]
    simp [hquote, operatorLength?_eq_none hc.isOperator, hc.isBlank, hlength]

theorem OpensString.tokenLength? (h : OpensString quote text) : tokenLength? quote text = none := by
  rw [Lexer.tokenLength?, if_pos h.isQuote, Option.map_eq_none_iff,
    Option.eq_none_iff_forall_ne_some]
  intro n hn
  obtain ⟨body, rest, rfl, hbody⟩ := exists_closes hn
  exact h.not_closes rfl hbody

/-- What the lexer reads is a token, or the beginning of a string that is not closed. -/
theorem opens_or_readBefore (hgap : gapLength false (c :: text) = 0) :
    OpensString c text ∨ ∃ token rest, c :: text = token ++ rest ∧ ReadBefore rest token := by
  obtain ⟨hblank, hcomment⟩ := gapLength_eq_zero_iff.1 hgap
  cases hquote : isQuote c with
  | true =>
    cases hclosing : closingLength? c text with
    | none =>
      refine .inl ⟨hquote, fun htext hbody => ?_⟩
      rw [htext, hbody.closingLength? hquote] at hclosing
      cases hclosing
    | some n =>
      obtain ⟨body, rest, rfl, hbody⟩ := exists_closes hclosing
      exact .inr ⟨c :: body, rest, rfl, .string hquote hbody⟩
  | false =>
    refine .inr ?_
    cases hoperator : operatorLength? (c :: text) with
    | some m =>
      obtain ⟨operator, rest, heq, h, hlongest⟩ := exists_operator hoperator
      refine ⟨operator, rest, heq, .operator h hlongest ?_⟩
      rintro rfl
      obtain ⟨rfl, rfl⟩ := List.cons.inj heq
      exact hcomment rfl
    | none =>
      obtain ⟨word, rest, rfl, hword, hend⟩ := exists_span InWord text
      have hc : InWord c := by
        refine ⟨hblank, Bool.eq_false_iff.2 fun h => ?_⟩
        have hsome := isSome_operatorLength? h (word ++ rest)
        rw [hoperator] at hsome
        cases hsome
      exact ⟨c :: word, rest, rfl, .word hquote (List.forall_mem_cons.2 ⟨hc, hword⟩) hend⟩

end Script.Lexer
