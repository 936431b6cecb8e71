import Script.Diagnostic.Excerpt
/-!
# The lines of an excerpt

Numbers and frames of rows have no control characters, so only a message or a source brings one into
an excerpt. No row spans lines, as long as the message does not: the lines of a plain excerpt are its
rows, each of them trimmed and cut, below an empty one.
-/

namespace Script

/-! ### What has no control characters -/

def IsControl (c : Char) : Prop := c.toNat < 32

instance (c : Char) : Decidable (IsControl c) := inferInstanceAs (Decidable (_ < _))

variable {c : Char}

theorem IsControl.notMem (hc : IsControl c) {text : List Char}
    (h : text.any (fun d => decide (IsControl d)) = false) : c ∉ text := by
  intro hmem
  exact List.any_eq_false.1 h c hmem (decide_eq_true hc)

theorem IsControl.notMem_replicate (hc : IsControl c) (n : Nat) : c ∉ List.replicate n ' ' := by
  rw [List.mem_replicate]
  rintro ⟨-, rfl⟩
  exact absurd hc (by decide)

theorem IsControl.isDigit_eq_false (hc : IsControl c) : c.isDigit = false := by
  rw [← Bool.not_eq_true]
  intro hdigit
  have hlow : 48 ≤ c.toNat := (Char.isDigit_iff_toNat.1 hdigit).1
  unfold IsControl at hc
  omega

private theorem IsControl.notMem_toDigits (hc : IsControl c) (n : Nat) : c ∉ Nat.toDigits 10 n := by
  intro h
  have hdigit := Nat.isDigit_of_mem_toDigits (by decide) (by decide) h
  rw [hc.isDigit_eq_false] at hdigit
  cases hdigit

private theorem IsControl.notMem_describe (hc : IsControl c) (p : Position) :
    c ∉ p.describe.toList :=
  p.notMem_describe hc.isDigit_eq_false (hc.notMem (by decide))

namespace Diagnostic

private theorem notMem_fillIn (hc : IsControl c) {message : String} (h : c ∉ message.toList)
    (position : Position) : c ∉ (fillIn message position).toList :=
  Text.notMem_replaceAll (hc.notMem_describe position) h

theorem notMem_lineNumber (hc : IsControl c) (line : Nat) : c ∉ lineNumber line := by
  unfold lineNumber
  rw [Nat.toList_repr]
  exact hc.notMem_toDigits _

theorem notMem_gutter (hc : IsControl c) (width : Nat) {number : List Char} (h : c ∉ number) :
    c ∉ gutter width number := by
  have hrule : c ∉ [' ', '|', ' '] := hc.notMem (by decide)
  unfold gutter List.leftpad
  rw [List.mem_append, List.mem_append, not_or, not_or]
  exact ⟨⟨hc.notMem_replicate _, h⟩, hrule⟩

private theorem notMem_neighbourRow? (hc : IsControl c) {lines : List (List Char)}
    {width line : Nat} {row : Row} (hlines : ∀ text ∈ lines, c ∉ text)
    (h : row ∈ neighbourRow? lines width line) :
    c ∉ row.text := by
  obtain ⟨text, htext, rfl⟩ := Option.map_eq_some_iff.1 h
  have hgutter := notMem_gutter hc width (notMem_lineNumber hc line)
  have hline := hlines text (List.mem_of_getElem? htext)
  simp [Row.text, hgutter, hline]

theorem text_markedRow (text : List Char) (width : Nat) (position : Position) :
    (markedRow text width position).text = gutter width (lineNumber position.line) ++ text := by
  simp [Row.text, markedRow]

theorem text_caretRow (width : Nat) (position : Position) :
    (caretRow width position).text =
      gutter width [] ++ List.replicate position.column ' ' ++ ['^'] := by
  simp [Row.text, caretRow]

theorem notMem_of_mem_tail_rows (hc : IsControl c) (message : String) {source : String}
    {position : Position} {row : Row}
    (hlines : ∀ text ∈ Text.lines (shownSource source), c ∉ text)
    (h : row ∈ (rows message source position).tail) : c ∉ row.text := by
  simp only [rows, List.tail_cons, List.mem_cons, List.mem_append, Option.mem_toList] at h
  rcases h with hbefore | rfl | rfl | hafter
  · split at hbefore
    · cases hbefore
    · exact notMem_neighbourRow? hc hlines hbefore
  · rw [text_markedRow, List.mem_append, not_or]
    refine ⟨notMem_gutter hc _ (notMem_lineNumber hc _), ?_⟩
    cases hline : (Text.lines (shownSource source))[position.line]? with
    | none => exact List.not_mem_nil
    | some text => exact hlines text (List.mem_of_getElem? hline)
  · have hgutter : c ∉ gutter (numberWidth position) [] :=
      notMem_gutter hc _ List.not_mem_nil
    have hcaret : c ∉ ['^'] := hc.notMem (by decide)
    rw [text_caretRow, List.mem_append, List.mem_append, not_or, not_or]
    exact ⟨⟨hgutter, hc.notMem_replicate _⟩, hcaret⟩
  · exact notMem_neighbourRow? hc hlines hafter

theorem notMem_of_mem_rows (hc : IsControl c) {message source : String} {position : Position}
    {row : Row} (hmessage : c ∉ message.toList)
    (hlines : ∀ text ∈ Text.lines (shownSource source), c ∉ text)
    (h : row ∈ rows message source position) : c ∉ row.text := by
  rcases List.mem_cons.1 h with rfl | htail
  · simpa [Row.text] using notMem_fillIn hc hmessage position
  · exact notMem_of_mem_tail_rows hc message hlines htail

theorem newline_notMem_lines_shownSource (source : String) :
    ∀ text ∈ Text.lines (shownSource source), '\n' ∉ text :=
  fun _ => Text.newline_notMem_of_mem_lines

private theorem Row.newline_notMem_write {row : Row} (h : '\n' ∉ row.text) :
    '\n' ∉ row.write false := by
  obtain ⟨blanks, hblanks, -⟩ := Text.exists_trimEnd_append row.text
  rw [hblanks, List.mem_append, not_or] at h
  rw [write_false]
  exact fun hmem => h.1 (List.mem_of_mem_take hmem)

theorem lines_excerpt {message : String} (hmessage : '\n' ∉ message.toList) (source : String)
    (position : Position) (terminal : Bool) :
    Text.lines (excerpt message source position .plain terminal).toList =
      [] :: (rows message source position).map (Row.write false) := by
  unfold excerpt
  rw [String.toList_ofList]
  apply Text.lines_block
  rw [List.forall_mem_map]
  intro row hrow
  apply Row.newline_notMem_write
  exact notMem_of_mem_rows (by decide) hmessage (newline_notMem_lines_shownSource source) hrow

/-! ### The lines of a source -/

def shown (text : List Char) : List Char := text.map fun c => if c = '\x1b' then ' ' else c

theorem lines_shownSource (source : String) :
    Text.lines (shownSource source) = (Text.lines (Text.withoutReturns source)).map shown := by
  apply Text.lines_map
  intro c
  split
  · next h => simp [h]
  · exact Iff.rfl

/-! ### Widths -/

theorem length_gutter {width : Nat} {number : List Char} (h : number.length ≤ width) :
    (gutter width number).length = width + 3 := by
  unfold gutter
  rw [List.length_append, List.length_leftpad, Nat.max_eq_left h]
  rfl

private theorem length_repr_le {m n : Nat} (h : m ≤ n) : m.repr.length ≤ n.repr.length := by
  rw [← String.length_toList, ← String.length_toList, Nat.toList_repr, Nat.toList_repr]
  have hn := (Nat.length_toDigits_le_iff (by decide) Nat.length_toDigits_pos).1
    (Nat.le_refl (Nat.toDigits 10 n).length)
  rw [Nat.length_toDigits_le_iff (by decide) Nat.length_toDigits_pos]
  omega

theorem lineNumber_eq {line : Nat} (h : line + 1 < UInt64.size) :
    lineNumber line = (line + 1).repr.toList := by
  rw [lineNumber, lineBelow_eq_add h]

theorem numberWidth_eq {position : Position} (h : position.line + 2 < UInt64.size) :
    numberWidth position = (position.line + 2).repr.length := by
  rw [numberWidth, lineBelow_eq_add h]

/-- The numbers of the lines up to the one after the position fit into the gutter. -/
theorem length_lineNumber_le {line : Nat} {position : Position} (h : line ≤ position.line + 1)
    (hcount : position.line + 2 < UInt64.size) :
    (lineNumber line).length ≤ numberWidth position := by
  rw [lineNumber_eq (by omega), numberWidth_eq hcount, String.length_toList]
  apply length_repr_le
  omega

theorem write_caretRow {width : Nat} {position : Position}
    (h : width + 3 + position.column < Row.maxWidth) :
    (caretRow width position).write false =
      gutter width [] ++ List.replicate position.column ' ' ++ ['^'] := by
  rw [Row.write_false, text_caretRow, Text.trimEnd_append_singleton _ rfl]
  apply List.take_of_length_le
  rw [List.length_append, List.length_append, length_gutter (Nat.zero_le width),
    List.length_replicate, List.length_singleton]
  omega

end Diagnostic

end Script
