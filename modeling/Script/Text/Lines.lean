/-!
# Lines of a text

A text is cut at its newlines. A text without a newline, the empty one too, is a single line.
Carriage returns are no part of a text.
-/

namespace Script.Text

def withoutReturns (source : String) : List Char := source.toList.filter (· ≠ '\r')

theorem return_notMem_withoutReturns (source : String) : '\r' ∉ withoutReturns source := by
  simp [withoutReturns]

theorem filter_return_eq_self {text : List Char} (h : '\r' ∉ text) :
    text.filter (· ≠ '\r') = text := by
  rw [List.filter_eq_self]
  intro c hc
  refine decide_eq_true ?_
  rintro rfl
  exact h hc

theorem withoutReturns_ofList {text : List Char} (h : '\r' ∉ text) :
    withoutReturns (String.ofList text) = text := by
  rw [withoutReturns, String.toList_ofList, filter_return_eq_self h]

def lines : List Char → List (List Char)
  | [] => [[]]
  | c :: text =>
    if c = '\n' then [] :: lines text
    else match lines text with
      | [] => [[c]]
      | line :: rest => (c :: line) :: rest

theorem lines_ne_nil (text : List Char) : lines text ≠ [] := by
  cases text with
  | nil => simp [lines]
  | cons c text =>
    rw [lines]
    split
    · simp
    · split <;> simp

/-- Lines joined by newlines, with a newline before the first. -/
def block (rows : List (List Char)) : List Char := rows.flatMap ('\n' :: ·)

theorem lines_cons_of_ne {c : Char} {text line : List Char} {rest : List (List Char)}
    (hc : c ≠ '\n') (h : lines text = line :: rest) : lines (c :: text) = (c :: line) :: rest := by
  rw [lines, if_neg hc, h]

theorem newline_notMem_of_mem_lines {text line : List Char} (h : line ∈ lines text) :
    '\n' ∉ line := by
  induction text generalizing line with
  | nil =>
    obtain rfl := List.mem_singleton.1 h
    exact List.not_mem_nil
  | cons c text ih =>
    obtain ⟨first, rest, hlines⟩ := List.exists_cons_of_ne_nil (lines_ne_nil text)
    by_cases hc : c = '\n'
    · rw [lines, if_pos hc] at h
      rcases List.mem_cons.1 h with rfl | h
      · exact List.not_mem_nil
      · exact ih h
    · rw [lines_cons_of_ne hc hlines] at h
      rw [hlines] at ih
      rcases List.mem_cons.1 h with rfl | h
      · rw [List.mem_cons, not_or]
        exact ⟨Ne.symm hc, ih List.mem_cons_self⟩
      · exact ih (List.mem_cons_of_mem first h)

theorem lines_append_newline (text more : List Char) :
    lines (text ++ '\n' :: more) = lines text ++ lines more := by
  induction text with
  | nil => rfl
  | cons c text ih =>
    obtain ⟨first, rest, hlines⟩ := List.exists_cons_of_ne_nil (lines_ne_nil text)
    by_cases hc : c = '\n'
    · rw [List.cons_append, lines, lines, if_pos hc, if_pos hc, ih, List.cons_append]
    · rw [hlines, List.cons_append] at ih
      rw [List.cons_append, lines_cons_of_ne hc ih, lines_cons_of_ne hc hlines, List.cons_append]

/-- What has no newline in it goes on the first line of what stands behind it. -/
theorem exists_lines_append {line : List Char} (h : '\n' ∉ line) (text : List Char) :
    ∃ first rest, lines text = first :: rest ∧ lines (line ++ text) = (line ++ first) :: rest := by
  induction line with
  | nil =>
    obtain ⟨first, rest, hlines⟩ := List.exists_cons_of_ne_nil (lines_ne_nil text)
    exact ⟨first, rest, hlines, hlines⟩
  | cons c line ih =>
    rw [List.mem_cons, not_or] at h
    obtain ⟨first, rest, hlines, hline⟩ := ih h.2
    exact ⟨first, rest, hlines, lines_cons_of_ne (Ne.symm h.1) hline⟩

theorem lines_eq_singleton {line : List Char} (h : '\n' ∉ line) : lines line = [line] := by
  obtain ⟨first, rest, hlines, hline⟩ := exists_lines_append h []
  obtain ⟨rfl, rfl⟩ := List.cons.inj hlines
  rwa [List.append_nil] at hline

theorem lines_block {rows : List (List Char)} (h : ∀ row ∈ rows, '\n' ∉ row) :
    lines (block rows) = [] :: rows := by
  induction rows with
  | nil => rfl
  | cons row rows ih =>
    obtain ⟨hrow, hrows⟩ := List.forall_mem_cons.1 h
    obtain ⟨first, rest, hlines, hline⟩ := exists_lines_append hrow (block rows)
    rw [ih hrows] at hlines
    obtain ⟨rfl, rfl⟩ := List.cons.inj hlines
    rw [List.append_nil] at hline
    rw [block, List.flatMap_cons, List.cons_append, lines, if_pos rfl]
    exact congrArg _ hline

theorem lines_map {f : Char → Char} (hf : ∀ c, f c = '\n' ↔ c = '\n') (text : List Char) :
    lines (text.map f) = (lines text).map (List.map f) := by
  induction text with
  | nil => rfl
  | cons c text ih =>
    obtain ⟨first, rest, hlines⟩ := List.exists_cons_of_ne_nil (lines_ne_nil text)
    by_cases hc : c = '\n'
    · rw [List.map_cons, lines, lines, if_pos hc, if_pos ((hf c).2 hc), ih]
      rfl
    · rw [hlines, List.map_cons] at ih
      rw [List.map_cons, lines_cons_of_ne (mt (hf c).1 hc) ih, lines_cons_of_ne hc hlines]
      rfl

end Script.Text
