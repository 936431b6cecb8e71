import Script.Literal
import Script.Proofs.Tree.Unplaced
import Script.Proofs.Writing.Lexemes
/-!
# Written literals are read as they were

A string is written with escapes, and a number with the suffix of its kind. Reading takes off what
writing has put on.
-/

namespace Script.Literal

variable {style : Style}

/-! ### Strings -/

theorem unescape_other {c : Char} (hc : c ≠ '\\') (text : List Char) :
    unescape (c :: text) = c :: unescape text := by
  cases text <;> simp [unescape, hc]

/-- Every escape stands for the character it was written for. -/
theorem unescape_escaped {quote : Char} (hq : Lexer.isQuote quote = true) (text : List Char) :
    unescape (text.flatMap (Style.escaped quote)) = text := by
  induction text with
  | nil => rfl
  | cons c text ih =>
    rw [List.flatMap_cons]
    rcases Style.escaped_cases quote c with ⟨hc, hslash, -⟩ | ⟨d, hc, hd⟩
    · rw [hc, List.singleton_append, unescape_other hslash, ih]
    · rw [hc]
      rcases hd with ⟨rfl, rfl | rfl⟩ | ⟨rfl, rfl⟩ | ⟨rfl, rfl⟩
      · simp [unescape, ih]
      · rcases Lexer.isQuote_iff.1 hq with rfl | rfl
        · simp [unescape, ih]
        · simp [unescape, ih]
      · simp [unescape, ih]
      · simp [unescape, ih]

theorem unquote_append (quote : Char) (text : List Char) :
    unquote quote (text ++ [quote]) = text := by
  rw [unquote, List.getLast?_concat, if_pos rfl, List.dropLast_concat]

theorem read_of_quote {quote : Char} {value : String} {text : List Char}
    (hq : Lexer.isQuote quote = true) (h : value.toList = quote :: text) :
    read value = .ok (.string, String.ofList (unescape (unquote quote text))) := by
  rw [read, h]
  simp only [Lexer.isQuote_iff.1 hq, if_true]

private theorem read_quoted (style : Style) (text : String) :
    read (style.quoted text) = .ok (.string, text) := by
  have hq := style.isQuote_quote text
  rw [Style.quoted, read_of_quote hq String.toList_ofList, unquote_append, unescape_escaped hq,
    String.ofList_toList]

/-! ### Numbers -/

theorem notMem_of_isDigit {letters : List Char} {c : Char}
    (h : letters.any Char.isDigit = false) (hc : c.isDigit = true) : c ∉ letters :=
  fun hmem => List.any_eq_false.1 h c hmem hc

private theorem based?_eq_none {text : List Char} (h : ∀ c ∈ text, c ∉ ['x', 'X', 'b', 'B']) :
    based? text = none := by
  unfold based?
  split
  · exact absurd (h 'x' (by simp)) (by decide)
  · exact absurd (h 'X' (by simp)) (by decide)
  · exact absurd (h 'b' (by simp)) (by decide)
  · exact absurd (h 'B' (by simp)) (by decide)
  · rfl

theorem read_of_isDigit {c : Char} {value : String} {text : List Char} (hc : c.isDigit = true)
    (h : value.toList = c :: text) : read value = number value := by
  have hquote : ¬(c = '"' ∨ c = '\'') := by
    rintro (rfl | rfl)
    · exact absurd hc (by decide)
    · exact absurd hc (by decide)
  rw [read, h]
  simp only [hquote, hc, if_true, if_false]

theorem read_digits {digits suffix : List Char} {kind : LiteralKind} (hne : digits ≠ [])
    (hd : ∀ c ∈ digits, c.isDigit = true)
    (hsuffix : suffix.all (· ∉ ['x', 'X', 'b', 'B']) = true)
    (hs : suffixed (digits ++ suffix) = (kind, digits)) :
    read (String.ofList (digits ++ suffix)) = .ok (kind, String.ofList digits) := by
  obtain ⟨c, cs, rfl⟩ := List.exists_cons_of_ne_nil hne
  have hc : c.isDigit = true := hd c List.mem_cons_self
  have hbased : based? (c :: cs ++ suffix) = none := by
    refine based?_eq_none fun c hc => ?_
    rcases List.mem_append.1 hc with hc | hc
    · exact notMem_of_isDigit (by decide) (hd c hc)
    · exact of_decide_eq_true (List.all_eq_true.1 hsuffix c hc)
  have hall : (c :: cs).all Char.isDigit = true := List.all_eq_true.2 hd
  have hread : read (String.ofList (c :: cs ++ suffix)) = number _ :=
    read_of_isDigit hc String.toList_ofList
  rw [hread, number, String.toList_ofList, hbased]
  simp only [hs, hall, List.isEmpty_cons, Bool.not_true, Bool.or_false, Bool.false_eq_true,
    if_false]

theorem suffixed_of_isDigit {digits : List Char} (hd : ∀ c ∈ digits, c.isDigit = true) :
    suffixed digits = (.int, digits) := by
  have hlast : ∀ c ∈ ['f', 'F', 'd', 'D'], digits.getLast? ≠ some c := by
    intro c hc hlast
    exact notMem_of_isDigit (by decide) (hd c (List.mem_of_getLast? hlast)) hc
  unfold suffixed
  split
  · next h => exact absurd h (hlast 'f' (by decide))
  · next h => exact absurd h (hlast 'F' (by decide))
  · next h => exact absurd h (hlast 'd' (by decide))
  · next h => exact absurd h (hlast 'D' (by decide))
  · rfl

theorem suffixed_float (digits : List Char) : suffixed (digits ++ ['f']) = (.float, digits) := by
  simp [suffixed]

theorem suffixed_double (digits : List Char) : suffixed (digits ++ ['d']) = (.double, digits) := by
  simp [suffixed]

/-- The literal that a writable one is written as is of its kind and has its text. -/
theorem read_spelling {l : Literal} (h : l.Writable) (style : Style) :
    read (l.spelling style) = .ok (l.kind, l.text) := by
  obtain ⟨kind, text, position⟩ := l
  have hdigits : IsNumber text → text.toList ≠ [] := fun hn => by simpa using hn.1
  cases kind with
  | string => exact read_quoted style text
  | boolean =>
    rcases h with h | h
    · obtain rfl : text = "true" := h
      show read "true" = _
      rfl
    · obtain rfl : text = "false" := h
      show read "false" = _
      rfl
  | null =>
    obtain rfl : text = "null" := h
    show read "null" = _
    rfl
  | int =>
    have hsuffixed : suffixed (text.toList ++ []) = (.int, text.toList) := by
      rw [List.append_nil]
      exact suffixed_of_isDigit h.2
    have hread := read_digits (hdigits h) h.2 (by decide) hsuffixed
    simpa [spelling] using hread
  | float =>
    have hread := read_digits (hdigits h) h.2 (by decide) (suffixed_float text.toList)
    simpa [spelling] using hread
  | double =>
    have hread := read_digits (hdigits h) h.2 (by decide) (suffixed_double text.toList)
    simpa [spelling] using hread

/-! ### As lexemes -/

private theorem lexeme_number {text suffix : String} (h : IsNumber text)
    (hs : suffix.toList.all Identifier.isFollowing = true) : style.Lexeme (text ++ suffix) := by
  refine .word (fun he => h.1 (String.append_eq_empty_iff.1 he).1) fun c hc => ?_
  rw [String.toList_append, List.mem_append] at hc
  rcases hc with hc | hc
  · simp [Identifier.isFollowing, h.2 c hc]
  · exact List.all_eq_true.1 hs c hc

theorem Writable.lexeme {l : Literal} (h : l.Writable) : style.Lexeme (l.spelling style) := by
  obtain ⟨kind, text, position⟩ := l
  cases kind with
  | string => exact .string text
  | boolean =>
    rcases h with h | h
    · obtain rfl : text = "true" := h
      show style.Lexeme "true"
      exact .of_all (by decide) (by decide)
    · obtain rfl : text = "false" := h
      show style.Lexeme "false"
      exact .of_all (by decide) (by decide)
  | null =>
    obtain rfl : text = "null" := h
    show style.Lexeme "null"
    exact .of_all (by decide) (by decide)
  | int =>
    have hlexeme : style.Lexeme (text ++ "") := lexeme_number h (by decide)
    simpa [spelling] using hlexeme
  | float => exact lexeme_number h (by decide)
  | double => exact lexeme_number h (by decide)

end Script.Literal
