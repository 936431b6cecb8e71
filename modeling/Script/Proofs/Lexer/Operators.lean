import Mathlib.Data.List.Basic
import Script.Lexer.Shape
/-!
# Operators at the front of a text

The operators are published in one table, and read by trying pairs of characters before single
ones. What is read is the longest entry of the table that the text begins with, and nothing is read
exactly if it begins with none.
-/

namespace Script.Lexer

variable {text longest other rest : List Char} {c : Char} {n : Nat}

def BeginsWithOperator (text : List Char) : Prop := ∃ operator ∈ operators, operator.toList <+: text

/-- Of everything with the property that the text begins with, nothing is longer. -/
structure LongestPrefix (p : List Char → Prop) (text longest : List Char) : Prop where
  begins : longest <+: text
  holds : p longest
  length_le : ∀ other, other <+: text → p other → other.length ≤ longest.length

private theorem LongestPrefix.unique {p : List Char → Prop} (h : LongestPrefix p text longest)
    (h' : LongestPrefix p text other) : other = longest := by
  have hle := h.length_le other h'.begins h'.holds
  have hge := h'.length_le longest h.begins h.holds
  exact (List.prefix_of_prefix_length_le h'.begins h.begins hle).eq_of_length_le hge

/-- Whatever goes on behind `text` goes on with the next character. -/
theorem exists_longer (hbegins : other <+: text ++ rest) (hlt : text.length < other.length) :
    ∃ c more, other = text ++ c :: more ∧ c ∈ rest.head? := by
  obtain ⟨more, rfl⟩ := List.prefix_of_prefix_length_le (List.prefix_append text rest) hbegins
    (Nat.le_of_lt hlt)
  cases more with
  | nil =>
    rw [List.append_nil] at hlt
    exact absurd hlt (Nat.lt_irrefl _)
  | cons c more =>
    obtain ⟨behind, rfl⟩ := (List.prefix_append_right_inj text).1 hbegins
    exact ⟨c, more, rfl, rfl⟩

/-! ### The table -/

theorem isOperator_head (h : isOperator (c :: text) = true) : isOperator [c] = true := by
  have hheads : ∀ operator ∈ operators.map String.toList,
      operator.head?.all (isOperator [·]) = true := by
    decide
  exact hheads _ (isOperator_iff.1 h)

theorem isQuote_head (h : isOperator (c :: text) = true) : isQuote c = false := by
  have hheads : ∀ operator ∈ operators.map String.toList,
      operator.head?.any isQuote = false := by
    decide
  exact hheads _ (isOperator_iff.1 h)

theorem isBlank_of_mem_operator (h : isOperator text = true) (hc : c ∈ text) :
    Text.isBlank c = false := by
  have hblanks : ∀ operator ∈ operators.map String.toList,
      operator.any Text.isBlank = false := by
    decide
  exact Bool.eq_false_iff.2 (List.any_eq_false.1 (hblanks _ (isOperator_iff.1 h)) c hc)

theorem length_of_isOperator (h : isOperator text = true) :
    text.length = 1 ∨ text.length = 2 := by
  have hlengths : ∀ operator ∈ operators.map String.toList,
      operator.length = 1 ∨ operator.length = 2 := by
    decide
  exact hlengths _ (isOperator_iff.1 h)

theorem ne_nil_of_isOperator (h : isOperator text = true) : text ≠ [] := by
  rintro rfl
  rcases length_of_isOperator h with hlength | hlength <;> cases hlength

/-- No operator but the slash itself begins with a slash. -/
theorem eq_slash_of_isOperator (h : isOperator ('/' :: text) = true) : text = [] := by
  have hslashes : ∀ operator ∈ operators.map String.toList, operator.head? = some '/' →
      operator.tail = [] := by
    decide
  exact hslashes _ (isOperator_iff.1 h) rfl

theorem beginsWithOperator_iff :
    BeginsWithOperator text ↔ ∃ operator, isOperator operator = true ∧ operator <+: text := by
  constructor
  · rintro ⟨operator, hmem, hbegins⟩
    exact ⟨operator.toList, isOperator_iff.2 (List.mem_map_of_mem hmem), hbegins⟩
  · rintro ⟨_, hoperator, hbegins⟩
    obtain ⟨operator, hmem, rfl⟩ := List.mem_map.1 (isOperator_iff.1 hoperator)
    exact ⟨operator, hmem, hbegins⟩

theorem beginsWithOperator_cons_iff : BeginsWithOperator (c :: text) ↔ isOperator [c] = true := by
  rw [beginsWithOperator_iff]
  constructor
  · rintro ⟨operator, hoperator, hbegins⟩
    obtain ⟨d, more, rfl⟩ := List.exists_cons_of_ne_nil (ne_nil_of_isOperator hoperator)
    obtain ⟨rfl, -⟩ := List.cons_prefix_cons.1 hbegins
    exact isOperator_head hoperator
  · intro hc
    exact ⟨[c], hc, text, rfl⟩

/-! ### What is tried -/

theorem isOperator_iff_tried :
    isOperator text = true ↔
      text ∈ pairs.map String.toList ∨ text ∈ singles.toList.map ([·]) := by
  have htable : ∀ operator ∈ operators.map String.toList,
      operator ∈ pairs.map String.toList ∨ operator ∈ singles.toList.map ([·]) := by
    decide +kernel
  have hpairs : ∀ pair ∈ pairs.map String.toList, isOperator pair = true := by decide +kernel
  have hsingles : ∀ single ∈ singles.toList.map ([·]), isOperator single = true := by
    decide +kernel
  constructor
  · exact fun h => htable text (isOperator_iff.1 h)
  · rintro (h | h)
    · exact hpairs text h
    · exact hsingles text h

theorem isOperator_singleton_iff : isOperator [c] = true ↔ c ∈ singles.toList := by
  rw [isOperator_iff_tried]
  constructor
  · rintro (h | h)
    · obtain ⟨pair, hmem, hpair⟩ := List.mem_map.1 h
      have hlength := length_of_mem_pairs hmem
      rw [hpair] at hlength
      cases hlength
    · simpa using h
  · exact fun h => .inr (List.mem_map_of_mem h)

theorem beginsWithPair_iff :
    BeginsWithPair text ↔
      ∃ operator, isOperator operator = true ∧ operator.length = 2 ∧ operator <+: text := by
  constructor
  · rintro ⟨pair, hmem, hbegins⟩
    have hoperator := isOperator_iff_tried.2 (.inl (List.mem_map_of_mem hmem))
    exact ⟨pair.toList, hoperator, length_of_mem_pairs hmem, hbegins⟩
  · rintro ⟨operator, hoperator, hlength, hbegins⟩
    rcases isOperator_iff_tried.1 hoperator with hpair | hsingle
    · obtain ⟨pair, hmem, rfl⟩ := List.mem_map.1 hpair
      exact ⟨pair, hmem, hbegins⟩
    · obtain ⟨c, -, rfl⟩ := List.mem_map.1 hsingle
      cases hlength

/-! ### What is read -/

theorem longestPrefix_operator (h : isOperator text = true)
    (hlongest : ∀ c ∈ rest.head?, isOperator (text ++ [c]) = false) :
    LongestPrefix (isOperator · = true) (text ++ rest) text := by
  refine ⟨List.prefix_append text rest, h, fun other hbegins hother => ?_⟩
  apply Nat.le_of_not_lt
  intro hlt
  have hlengths := length_of_isOperator h
  have hlengths' := length_of_isOperator hother
  obtain ⟨c, more, rfl, hc⟩ := exists_longer hbegins hlt
  -- there is room for one character more
  have hmore : more.length = 0 := by
    simp only [List.length_append, List.length_cons] at hlengths'
    omega
  obtain rfl := List.length_eq_zero_iff.1 hmore
  rw [hlongest c hc] at hother
  cases hother

theorem operatorLength?_eq_none_iff : operatorLength? text = none ↔ ¬BeginsWithOperator text := by
  rw [beginsWithOperator_iff]
  rcases operatorLength?_cases text with
    ⟨hpair, htwo⟩ | ⟨hpair, ⟨⟨c, hc, hsingle⟩, hone⟩ | ⟨hsingle, hnone⟩⟩
  · obtain ⟨operator, hoperator, -, hbegins⟩ := beginsWithPair_iff.1 hpair
    rw [htwo]
    exact iff_of_false nofun fun h => h ⟨operator, hoperator, hbegins⟩
  · obtain ⟨behind, rfl⟩ := List.head?_eq_some_iff.1 hc
    rw [hone]
    exact iff_of_false nofun fun h => h ⟨[c], isOperator_singleton_iff.2 hsingle, behind, rfl⟩
  · refine iff_of_true hnone ?_
    rintro ⟨operator, hoperator, hbegins⟩
    obtain ⟨c, more, rfl⟩ := List.exists_cons_of_ne_nil (ne_nil_of_isOperator hoperator)
    obtain ⟨behind, rfl⟩ := hbegins
    exact hsingle c rfl (isOperator_singleton_iff.1 (isOperator_head hoperator))

/-- What is tried first is longer than what is tried after it, so the longest operator is found. -/
theorem exists_longestPrefix (h : operatorLength? text = some n) :
    ∃ operator, operator.length = n ∧ LongestPrefix (isOperator · = true) text operator := by
  rcases operatorLength?_cases text with
    ⟨hpair, htwo⟩ | ⟨hpair, ⟨⟨c, hc, hsingle⟩, hone⟩ | ⟨-, hnone⟩⟩
  · obtain ⟨operator, hoperator, hlength, hbegins⟩ := beginsWithPair_iff.1 hpair
    obtain rfl := Option.some.inj (htwo.symm.trans h)
    refine ⟨operator, hlength, hbegins, hoperator, fun other _ hother => ?_⟩
    rcases length_of_isOperator hother with hother | hother <;> omega
  · obtain ⟨behind, rfl⟩ := List.head?_eq_some_iff.1 hc
    obtain rfl := Option.some.inj (hone.symm.trans h)
    refine ⟨[c], rfl, ⟨behind, rfl⟩, isOperator_singleton_iff.2 hsingle,
      fun other hbegins hother => ?_⟩
    rcases length_of_isOperator hother with hlength | hlength
    · exact Nat.le_of_eq hlength
    · exact absurd (beginsWithPair_iff.2 ⟨other, hother, hlength, hbegins⟩) hpair
  · rw [hnone] at h
    cases h

theorem operatorLength?_eq_some_iff :
    operatorLength? text = some n ↔
      ∃ operator, operator.length = n ∧ LongestPrefix (isOperator · = true) text operator := by
  constructor
  · exact exists_longestPrefix
  · rintro ⟨operator, rfl, h⟩
    cases hread : operatorLength? text with
    | none =>
      have hno := operatorLength?_eq_none_iff.1 hread
      exact absurd (beginsWithOperator_iff.2 ⟨operator, h.holds, h.begins⟩) hno
    | some m =>
      obtain ⟨other, rfl, hother⟩ := exists_longestPrefix hread
      rw [h.unique hother]

theorem operatorLength?_append (h : isOperator text = true)
    (hlongest : ∀ c ∈ rest.head?, isOperator (text ++ [c]) = false) :
    operatorLength? (text ++ rest) = some text.length :=
  operatorLength?_eq_some_iff.2 ⟨text, rfl, longestPrefix_operator h hlongest⟩

theorem operatorLength?_eq_none (hc : isOperator [c] = false) (text : List Char) :
    operatorLength? (c :: text) = none := by
  rw [operatorLength?_eq_none_iff, beginsWithOperator_cons_iff, hc]
  exact Bool.false_ne_true

theorem isSome_operatorLength? (hc : isOperator [c] = true) (text : List Char) :
    (operatorLength? (c :: text)).isSome = true := by
  rw [Option.isSome_iff_ne_none, Ne, operatorLength?_eq_none_iff, not_not]
  exact beginsWithOperator_cons_iff.2 hc

theorem exists_operator (h : operatorLength? text = some n) :
    ∃ operator rest, text = operator ++ rest ∧ isOperator operator = true ∧
      ∀ c ∈ rest.head?, isOperator (operator ++ [c]) = false := by
  obtain ⟨operator, -, ⟨rest, rfl⟩, hoperator, hlongest⟩ := exists_longestPrefix h
  refine ⟨operator, rest, rfl, hoperator, fun c hc => Bool.eq_false_iff.2 fun hmore => ?_⟩
  obtain ⟨behind, rfl⟩ := List.head?_eq_some_iff.1 hc
  have hle := hlongest (operator ++ [c]) ⟨behind, by simp⟩ hmore
  simp only [List.length_append, List.length_singleton] at hle
  omega

end Script.Lexer
