import Script.Proofs.Lexer.Cut
import Script.Proofs.Writing
/-!
# Written texts are cut as they were written

A style leaves gaps where two texts would run together. So the lexer finds every text again that
was written, and nothing else.
-/

namespace Script

open Script.Lexer

/-! ### Characters of words -/

namespace Identifier

private theorem toNat_of_isAlpha {c : Char} (h : c.isAlpha = true) :
    (65 ≤ c.toNat ∧ c.toNat ≤ 90) ∨ (97 ≤ c.toNat ∧ c.toNat ≤ 122) := by
  change (decide (c.val ≥ 'A'.val ∧ c.val ≤ 'Z'.val) ||
    (decide (c.val ≥ 'a'.val) && decide (c.val ≤ 'z'.val))) = true at h
  simp only [Bool.or_eq_true, Bool.and_eq_true, decide_eq_true_eq, ge_iff_le,
    UInt32.le_iff_toNat_le] at h
  exact h

theorem toNat_of_isDigit {c : Char} (h : c.isDigit = true) : 48 ≤ c.toNat ∧ c.toNat ≤ 57 := by
  simp only [Char.isDigit, Bool.and_eq_true, decide_eq_true_eq, ge_iff_le,
    UInt32.le_iff_toNat_le] at h
  exact h

private theorem isBlank_of_isFollowing {c : Char} (h : isFollowing c = true) :
    Text.isBlank c = false := by
  rw [← Bool.not_eq_true]
  intro hblank
  obtain ⟨r, hr, hle⟩ := Text.exists_range_of_inRanges hblank
  have hrange : ∀ r ∈ Text.blankRanges, r.2 ≤ 32 ∨ 133 ≤ r.1 := by decide
  have hbound : c.toNat ≤ 32 ∨ 133 ≤ c.toNat := by
    rcases hrange r hr with h | h <;> omega
  simp only [isFollowing, isInitial, Bool.or_eq_true, decide_eq_true_eq] at h
  rcases h with ((((h | rfl) | rfl) | rfl) | h) | rfl
  · have hletter := toNat_of_isAlpha h
    omega
  · revert hbound
    decide
  · revert hbound
    decide
  · revert hbound
    decide
  · have hdigit := toNat_of_isDigit h
    omega
  · revert hbound
    decide

theorem ne_of_isFollowing {c d : Char} (h : isFollowing c = true) (hd : isFollowing d = false) :
    c ≠ d := by
  rintro rfl
  rw [h] at hd
  cases hd

theorem inWord_of_isFollowing {c : Char} (h : isFollowing c = true) : InWord c := by
  have hoperators : ∀ operator ∈ operators.map String.toList,
      operator.any isFollowing = false := by
    decide
  refine ⟨isBlank_of_isFollowing h, Bool.eq_false_iff.2 fun hop => ?_⟩
  exact List.any_eq_false.1 (hoperators _ (isOperator_iff.1 hop)) c (List.mem_singleton.2 rfl) h

private theorem isQuote_of_isFollowing {c : Char} (h : isFollowing c = true) :
    isQuote c = false := by
  rw [← Bool.not_eq_true, isQuote_iff]
  rintro (rfl | rfl)
  · exact absurd h (by decide)
  · exact absurd h (by decide)

end Identifier

/-! ### Signs -/

theorem isOperator_of_mem_writtenSigns {a : String} (h : a ∈ writtenSigns) :
    isOperator a.toList = true := by
  have hsigns : ∀ a ∈ writtenSigns, isOperator a.toList = true := by decide
  exact hsigns a h

/-- Only a second assignment sign makes another operator of a sign. -/
theorem isOperator_append_of_mem_writtenSigns {a : String} {c : Char} (h : a ∈ writtenSigns)
    (hc : a = "=" → c ≠ '=') : isOperator (a.toList ++ [c]) = false := by
  have hsigns : ∀ a ∈ writtenSigns, ∀ operator ∈ operators.map String.toList,
      operator.dropLast = a.toList → a = "=" ∧ operator = ['=', '='] := by
    decide
  refine Bool.eq_false_iff.2 fun hop => ?_
  obtain ⟨rfl, hequals⟩ := hsigns a h _ (isOperator_iff.1 hop) List.dropLast_concat
  exact hc rfl (by simpa using hequals)

private theorem notMem_writtenSigns {a : String}
    (h : ∀ c ∈ a.toList, Identifier.isFollowing c = true) : a ∉ writtenSigns := by
  have hsigns : ∀ a ∈ writtenSigns, a.toList.all Identifier.isFollowing = false := by decide
  intro hsign
  have hno := hsigns a hsign
  rw [List.all_eq_true.2 h] at hno
  cases hno

private theorem not_inWord_of_mem_writtenSigns {a : String} (h : a ∈ writtenSigns)
    {rest : List Char} {c : Char} (hc : c ∈ (a.toList ++ rest).head?) : ¬InWord c := by
  have hop := isOperator_of_mem_writtenSigns h
  obtain ⟨d, text, ha⟩ : ∃ d text, a.toList = d :: text := by
    refine List.exists_cons_of_ne_nil fun hnil => ?_
    rw [hnil] at hop
    cases hop
  rw [ha] at hop hc
  obtain rfl := Option.some.inj hc
  exact not_inWord_of_isOperator (isOperator_head hop)

/-! ### Strings -/

namespace Lexer

theorem closes_escaped {quote : Char} (hq : isQuote quote = true) (text : List Char) :
    Closes quote (text.flatMap (Style.escaped quote) ++ [quote]) := by
  induction text with
  | nil => exact .quote
  | cons c text ih =>
    rw [List.flatMap_cons, List.append_assoc]
    rcases Style.escaped_cases quote c with ⟨hc, hslash, hquote, hn, -⟩ | ⟨d, hc, hd⟩
    · rw [hc]
      exact .plain hquote hn hslash ih
    · have hne : d ≠ '\n' := by
        rcases hd with ⟨rfl, rfl | rfl⟩ | ⟨rfl, -⟩ | ⟨rfl, -⟩
        · decide
        · exact ne_of_isQuote hq rfl
        · decide
        · decide
      rw [hc]
      exact .escape hne ih

end Lexer

/-! ### Lexemes -/

/-- What is written as one token: a word or a number, a sign, or a string. -/
inductive Style.Lexeme (style : Style) : String → Prop
  | word {a : String} (hne : a ≠ "") (h : ∀ c ∈ a.toList, Identifier.isFollowing c = true) :
      Lexeme style a
  | sign {a : String} (h : a ∈ writtenSigns) : Lexeme style a
  | string (text : String) : Lexeme style (style.quoted text)

structure EndsBefore (a : String) (rest : List Char) : Prop where
  word : a ∉ writtenSigns → ∀ c ∈ rest.head?, ¬InWord c
  equals : a = "=" → rest.head? ≠ some '='

variable {style : Style}

theorem Style.Lexeme.of_all {a : String} (hne : a ≠ "")
    (h : a.toList.all Identifier.isFollowing = true) : style.Lexeme a :=
  .word hne (List.all_eq_true.1 h)

/-- A lexeme is a token in front of whatever is no part of it. -/
theorem Style.Lexeme.readBefore {a : String} (h : style.Lexeme a) {rest : List Char}
    (hrest : EndsBefore a rest) : ReadBefore rest a.toList := by
  cases h with
  | word hne h =>
    have hend := hrest.word (notMem_writtenSigns h)
    obtain ⟨c, cs, ha⟩ : ∃ c cs, a.toList = c :: cs :=
      List.exists_cons_of_ne_nil (by simpa using hne)
    rw [ha] at h ⊢
    exact .word (Identifier.isQuote_of_isFollowing (h c List.mem_cons_self))
      (fun d hd => Identifier.inWord_of_isFollowing (h d hd)) hend
  | sign h =>
    have hslash : a.toList ≠ ['/'] := by
      have hsigns : ∀ a ∈ writtenSigns, a.toList ≠ ['/'] := by decide
      exact hsigns a h
    refine .operator (isOperator_of_mem_writtenSigns h) (fun c hc => ?_) fun ha => absurd ha hslash
    refine isOperator_append_of_mem_writtenSigns h ?_
    rintro ha rfl
    exact hrest.equals ha hc
  | string text =>
    have hq := style.isQuote_quote text
    rw [Style.quoted, String.toList_ofList]
    exact .string hq (closes_escaped hq _)

/-! ### Written texts -/

namespace Style

theorem write_cons_cons (style : Style) (a b : String) (rest : List String) :
    (style.write (a :: b :: rest)).toList =
      a.toList ++ ((style.gap a b).toList ++ (style.write (b :: rest)).toList) := by
  simp [write]

private theorem exists_write_cons (style : Style) (a : String) (rest : List String) :
    ∃ text, (style.write (a :: rest)).toList = a.toList ++ text := by
  cases rest with
  | nil => exact ⟨[], (List.append_nil _).symm⟩
  | cons b rest => exact ⟨_, style.write_cons_cons a b rest⟩

private theorem Lexeme.head?_ne_equals {a : String} (h : style.Lexeme a) (hne : a ≠ "=")
    (rest : List Char) : (a.toList ++ rest).head? ≠ some '=' := by
  cases h with
  | word hword h =>
    obtain ⟨c, cs, ha⟩ : ∃ c cs, a.toList = c :: cs :=
      List.exists_cons_of_ne_nil (by simpa using hword)
    have hc : c ≠ '=' := Identifier.ne_of_isFollowing (h c (by simp [ha])) (by decide)
    simpa [ha] using hc
  | sign h =>
    have hheads : ∀ a ∈ writtenSigns, a ≠ "=" → a.toList ≠ [] ∧ a.toList.head? ≠ some '=' := by
      decide
    obtain ⟨hcons, hhead⟩ := hheads a h hne
    rwa [List.head?_append_of_ne_nil _ hcons]
  | string text =>
    rw [quoted, String.toList_ofList]
    have hquote : style.quote text ≠ '=' := ne_of_isQuote (style.isQuote_quote text) rfl
    simpa using hquote

/-- What follows a text begins with a gap, or the next text may stand right behind it. -/
theorem endsBefore_gap {a b : String} (hb : style.Lexeme b) (rest : List Char) :
    EndsBefore a ((style.gap a b).toList ++ (b.toList ++ rest)) := by
  cases hgap : (style.gap a b).toList with
  | nil =>
    have hapart : ¬NeedsGap a b := fun hneeds =>
      style.gap_ne_empty a b hneeds (String.toList_eq_nil_iff.1 hgap)
    refine ⟨fun ha => ?_, fun ha => ?_⟩
    · have hsign : b ∈ writtenSigns := Decidable.not_not.1 fun hb => hapart (.inl ⟨ha, hb⟩)
      exact fun c hc => not_inWord_of_mem_writtenSigns hsign hc
    · exact hb.head?_ne_equals (fun he => hapart (.inr ⟨ha, he⟩)) rest
  | cons c gap =>
    have hc := (style.isBlank_gap a b c (by simp [hgap])).1
    refine ⟨fun _ d hd => ?_, fun _ => ?_⟩
    · obtain rfl := Option.some.inj hd
      exact not_inWord_of_isBlank hc
    · rintro he
      obtain rfl : c = '=' := Option.some.inj he
      exact absurd hc (by decide)

/-- A written source can be cut into the texts it was written from. -/
theorem exists_cut_write {values : List String} (h : ∀ a ∈ values, style.Lexeme a)
    (position : Position) {gap : List Char} (hgap : ∀ c ∈ gap, Text.isBlank c = true) :
    ∃ tokens, Cut position (gap ++ (style.write values).toList) tokens none ∧
      tokens.map Token.value = values := by
  induction values generalizing position gap with
  | nil =>
    refine ⟨[], ?_, rfl⟩
    rw [show (style.write []).toList = [] from rfl, List.append_nil]
    exact .finished (.of_isBlank hgap)
  | cons a values ih =>
    obtain ⟨ha, hvalues⟩ := List.forall_mem_cons.1 h
    -- the text goes on with the gap behind `a`, and with the texts that are left
    obtain ⟨gap', rest, hrest, hwrite, hgap', hends⟩ : ∃ gap' rest,
        rest = gap' ++ (style.write values).toList ∧
        (style.write (a :: values)).toList = a.toList ++ rest ∧
        (∀ c ∈ gap', Text.isBlank c = true) ∧ EndsBefore a rest := by
      cases values with
      | nil => exact ⟨[], [], rfl, (List.append_nil _).symm, by simp, fun _ => by simp, by simp⟩
      | cons b values =>
        obtain ⟨text, htext⟩ := style.exists_write_cons b values
        refine ⟨_, _, rfl, style.write_cons_cons a b values,
          fun c hc => (style.isBlank_gap a b c hc).1, ?_⟩
        rw [htext]
        exact endsBefore_gap (hvalues b (by simp)) text
    obtain ⟨tokens, hcut, hmap⟩ := ih hvalues ((position.after gap).after a.toList) hgap'
    rw [← hrest] at hcut
    rw [hwrite]
    refine ⟨_, .token (.of_isBlank hgap) (ha.readBefore hends) hcut, ?_⟩
    rw [List.map_cons, hmap, String.ofList_toList]

/-! ### Carriage returns -/

private theorem return_notMem_escaped {quote : Char} (hq : isQuote quote = true) (c : Char) :
    '\r' ∉ escaped quote c := by
  have hreturn : '\r' ≠ quote := (ne_of_isQuote hq rfl).symm
  rcases escaped_cases quote c with ⟨hc, -, -, -, hne⟩ | ⟨d, hc, hd⟩
  · rw [hc, List.mem_singleton]
    exact hne.symm
  · rw [hc]
    rcases hd with ⟨rfl, rfl | rfl⟩ | ⟨rfl, -⟩ | ⟨rfl, -⟩
    · decide
    · simp [hreturn]
    · decide
    · decide

theorem return_notMem_quoted {quote : Char} (hq : isQuote quote = true) (text : List Char) :
    '\r' ∉ quote :: (text.flatMap (escaped quote) ++ [quote]) := by
  have hreturn : '\r' ≠ quote := (ne_of_isQuote hq rfl).symm
  simp only [List.mem_cons, List.mem_append, List.mem_flatMap, List.not_mem_nil, or_false, not_or]
  refine ⟨hreturn, ?_, hreturn⟩
  rintro ⟨c, -, hc⟩
  exact return_notMem_escaped hq c hc

private theorem Lexeme.return_notMem {a : String} (h : style.Lexeme a) : '\r' ∉ a.toList := by
  cases h with
  | word _ h => exact fun hr => absurd (h _ hr) (by decide)
  | sign h =>
    have hsigns : ∀ a ∈ writtenSigns, '\r' ∉ a.toList := by decide
    exact hsigns a h
  | string text =>
    rw [quoted, String.toList_ofList]
    exact return_notMem_quoted (style.isQuote_quote text) text.toList

private theorem return_notMem_write {values : List String} (h : ∀ a ∈ values, style.Lexeme a) :
    '\r' ∉ (style.write values).toList := by
  induction values with
  | nil => simp [write]
  | cons a values ih =>
    obtain ⟨ha, hvalues⟩ := List.forall_mem_cons.1 h
    cases values with
    | nil => exact ha.return_notMem
    | cons b values =>
      rw [write_cons_cons, List.mem_append, List.mem_append, not_or, not_or]
      exact ⟨ha.return_notMem, fun hr => (style.isBlank_gap a b _ hr).2 rfl, ih hvalues⟩

theorem tokenize_write {values : List String} (h : ∀ a ∈ values, style.Lexeme a)
    (file : Option String) :
    ∃ tokens, tokenize (style.write values) file = .ok ⟨file, tokens⟩ ∧
      tokens.map Token.value = values := by
  have hsource : Text.withoutReturns (style.write values) = (style.write values).toList :=
    Text.filter_return_eq_self (return_notMem_write h)
  obtain ⟨tokens, hcut, hmap⟩ := exists_cut_write h {} (List.forall_mem_nil _)
  exact ⟨tokens, tokenize_eq_ok_iff.2 ⟨rfl, hsource ▸ hcut⟩, hmap⟩

end Style

end Script
