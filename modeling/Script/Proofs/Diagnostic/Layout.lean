import Script.Proofs.Diagnostic.Lines
/-!
# The layout of an excerpt

Which lines a plain excerpt has, in which order, what stands in front of them, and how they are
shortened. A line is trimmed before it is cut, so that a line which was cut may end in blanks.
-/

namespace Script.Diagnostic

/-! ### Shortened lines -/

/-- A line as a plain excerpt has it: trimmed at its end, then cut. -/
def shortened (text : List Char) : List Char := (Text.trimEnd text).take 80

theorem write_false_eq_shortened (row : Row) : row.write false = shortened row.text :=
  row.write_false

private theorem length_shortened_le (text : List Char) : (shortened text).length ≤ 80 := by
  unfold shortened
  rw [List.length_take]
  omega

private theorem lt_length_of_shortened {text : List Char} {c : Char}
    (h : (shortened text).getLast? = some c) (hc : Text.isBlank c = true) :
    80 < (Text.trimEnd text).length := by
  apply Nat.lt_of_not_le
  intro hle
  unfold shortened at h
  rw [List.take_of_length_le hle] at h
  rw [Text.isBlank_of_getLast?_trimEnd h] at hc
  cases hc

private theorem exists_row_of_mem_lines {message : String} (hmessage : '\n' ∉ message.toList)
    {source : String} {position : Position} {terminal : Bool} {line : List Char}
    (h : line ∈ Text.lines (excerpt message source position .plain terminal).toList) :
    line = [] ∨ ∃ row ∈ rows message source position, line = shortened row.text := by
  rw [lines_excerpt hmessage, List.mem_cons, List.mem_map] at h
  rcases h with hempty | ⟨row, hrow, hwrite⟩
  · exact .inl hempty
  · refine .inr ⟨row, hrow, ?_⟩
    rw [← hwrite, write_false_eq_shortened]

/-- A line of a plain excerpt has no more than eighty characters. It ends with a blank only if it
was cut, and then it is the front of a longer line that does not. -/
theorem excerpt_lines_short {message : String} (hmessage : '\n' ∉ message.toList)
    (source : String) (position : Position) (terminal : Bool) :
    ∀ line ∈ Text.lines (excerpt message source position .plain terminal).toList,
      line.length ≤ 80 ∧
        ∀ c, line.getLast? = some c → Text.isBlank c = true →
          ∃ row ∈ rows message source position,
            line = (Text.trimEnd row.text).take 80 ∧ 80 < (Text.trimEnd row.text).length := by
  intro line hline
  rcases exists_row_of_mem_lines hmessage hline with rfl | ⟨row, hrow, rfl⟩
  · refine ⟨Nat.zero_le 80, fun c hlast => ?_⟩
    cases hlast
  · refine ⟨length_shortened_le row.text, fun c hlast hblank => ?_⟩
    exact ⟨row, hrow, rfl, lt_length_of_shortened hlast hblank⟩

/-- A caret that is cut off leaves the blanks in front of it. -/
theorem excerpt_blank_end :
    ∃ line ∈ Text.lines (excerpt "oops" "" ⟨0, 100⟩ .plain false).toList,
      line.getLast? = some ' ' := by
  rw [excerpt, String.toList_ofList]
  decide +kernel

/-- The line of a caret that is cut off is the front of the whole line. -/
theorem excerpt_lines_short_caret :
    let line := "  | ".toList ++ List.replicate 76 ' '
    '\n' ∉ "oops".toList ∧
      line ∈ Text.lines (excerpt "oops" "" ⟨0, 100⟩ .plain false).toList ∧ line.length ≤ 80 ∧
      line.getLast? = some ' ' ∧ Text.isBlank ' ' = true ∧
      ∃ row ∈ rows "oops" "" ⟨0, 100⟩,
        line = (Text.trimEnd row.text).take 80 ∧ 80 < (Text.trimEnd row.text).length := by
  intro line
  have hmessage : '\n' ∉ "oops".toList := by decide
  have hline : line ∈ Text.lines (excerpt "oops" "" ⟨0, 100⟩ .plain false).toList := by
    rw [excerpt, String.toList_ofList]
    decide +kernel
  have hlast : line.getLast? = some ' ' := by decide
  obtain ⟨hlength, hcut⟩ := excerpt_lines_short hmessage "" ⟨0, 100⟩ false line hline
  exact ⟨hmessage, hline, hlength, hlast, rfl, hcut ' ' hlast rfl⟩

/-! ### Which lines there are -/

private theorem write_rows (rows : List Row) :
    rows.map (Row.write false) = (rows.map Row.text).map shortened := by
  rw [List.map_map]
  apply List.map_congr_left
  intro row _
  exact write_false_eq_shortened row

private theorem map_text_neighbourRow? (lines : List (List Char)) (width line : Nat) :
    (neighbourRow? lines width line).toList.map Row.text =
      (lines[line]?.map (gutter width (lineNumber line) ++ ·)).toList := by
  unfold neighbourRow?
  cases lines[line]? with
  | none => rfl
  | some text => simp [Row.text]

/-- The rows below the message are the lines around the position and the caret, behind gutters. -/
theorem map_text_rows (message source : String) (position : Position) :
    let lines := Text.lines (shownSource source)
    let ruled := fun number text : List Char => gutter (numberWidth position) number ++ text
    let numbered := fun line : Nat => lines[line]?.map (ruled (lineNumber line))
    (rows message source position).map Row.text =
      (fillIn message position).toList ::
        ((if position.line = 0 then none else numbered (position.line - 1)).toList ++
          ruled (lineNumber position.line) (lines[position.line]?.getD []) ::
          ruled [] (List.replicate position.column ' ' ++ ['^']) ::
          (numbered (lineBelow position.line 1)).toList) := by
  intro lines ruled numbered
  have hbefore : (if position.line = 0 then none
        else neighbourRow? lines (numberWidth position) (position.line - 1)).toList.map Row.text =
      (if position.line = 0 then none else numbered (position.line - 1)).toList := by
    split
    · rfl
    · exact map_text_neighbourRow? lines _ _
  have hmessage : Row.text [⟨.normal, (fillIn message position).toList⟩] =
      (fillIn message position).toList := by
    simp [Row.text]
  unfold rows
  rw [List.map_cons, List.map_append, List.map_cons, List.map_cons, hmessage, hbefore,
    text_markedRow, text_caretRow, map_text_neighbourRow?, List.append_assoc (gutter _ _)]

/-- A position whose excerpt can be counted out. -/
structure Countable (position : Position) : Prop where
  /-- The line of the position and the one after it have numbers. -/
  line : position.line + 2 < UInt64.size
  /-- The blanks before the caret find room in memory. -/
  column : position.column < UInt64.size / 2

/-- A plain excerpt has an empty line, the message with the position in words wherever it is named,
the line before the position if there is one, the line of the position, the caret and the line after
if there is one. Numbers stand on the right of fields of one width, and the caret behind as many
blanks as the column says. Each line is trimmed at its end and then cut. -/
theorem excerpt_layout {message : String} (hmessage : '\n' ∉ message.toList) (source : String)
    {position : Position} (hposition : Countable position) (terminal : Bool) :
    let lines := (Text.lines (Text.withoutReturns source)).map shown
    let width := (position.line + 2).repr.length
    let number := fun line : Nat => (line + 1).repr.toList
    let ruled := fun field text : List Char =>
      List.replicate (width - field.length) ' ' ++ field ++ [' ', '|', ' '] ++ text
    let numbered := fun line : Nat => lines[line]?.map (ruled (number line))
    Text.lines (excerpt message source position .plain terminal).toList =
        [] :: ((fillIn message position).toList ::
          ((if position.line = 0 then none else numbered (position.line - 1)).toList ++
            ruled (number position.line) (lines[position.line]?.getD []) ::
            ruled [] (List.replicate position.column ' ' ++ ['^']) ::
            (numbered (position.line + 1)).toList)).map
          (fun text => (Text.trimEnd text).take 80) ∧
      (∀ line ≤ position.line + 1, (number line).length ≤ width) ∧
      ∃ pieces, placeholder.toList.intercalate pieces = message.toList ∧
        position.describe.toList.intercalate pieces = (fillIn message position).toList ∧
        ∀ piece ∈ pieces, ¬placeholder.toList <:+: piece := by
  intro lines width number ruled numbered
  have hcount := hposition.line
  have hwidth : numberWidth position = width := numberWidth_eq hcount
  have hnumber : ∀ line ≤ position.line + 1, lineNumber line = number line :=
    fun line hline => lineNumber_eq (by omega)
  refine ⟨?_, ?_, ?_⟩
  · have hbefore := hnumber (position.line - 1) (by omega)
    have hmarked := hnumber position.line (by omega)
    have hafter := hnumber (position.line + 1) (Nat.le_refl _)
    have hbelow : lineBelow position.line 1 = position.line + 1 := lineBelow_eq_add (by omega)
    rw [lines_excerpt hmessage, write_rows, map_text_rows, lines_shownSource]
    simp only [hbelow, hwidth, hbefore, hmarked, hafter]
    rfl
  · intro line hline
    have hlength := length_lineNumber_le hline hcount
    rwa [hwidth, hnumber line hline] at hlength
  · obtain ⟨piece, pieces, htext, hfilled, hpieces⟩ :=
      Text.exists_pieces position.describe.toList (by decide : placeholder.toList ≠ [])
        message.toList
    refine ⟨piece :: pieces, htext, ?_, hpieces⟩
    rw [hfilled, fillIn, Text.replaceAll, String.toList_ofList]

/-- The number of the line after has a digit more, the marked line begins with a control character
and ends in blanks, and the message names the position twice. -/
theorem excerpt_layout_ten :
    let source := "1\n2\n3\n4\n5\n6\n7\n8\r\n\x1bnine  \nten\n"
    '\n' ∉ "at {position}, not {position}".toList ∧ Countable ⟨8, 3⟩ ∧
      Text.lines (excerpt "at {position}, not {position}" source ⟨8, 3⟩ .plain false).toList =
        [[], "at line 8, column 3, not line 8, column 3".toList, " 8 | 8".toList,
          " 9 |  nine".toList, "   |    ^".toList, "10 | ten".toList] := by
  intro source
  have hmessage : '\n' ∉ "at {position}, not {position}".toList := by decide
  have hposition : Countable ⟨8, 3⟩ := ⟨by decide, by decide⟩
  have hlayout := (excerpt_layout hmessage source hposition false).1
  exact ⟨hmessage, hposition, hlayout.trans (by decide +kernel)⟩

/-- In the last line that can be counted the numbers have started over: the line has the number zero
in a field for one digit, and the first line of the source stands below as the line after. -/
theorem excerpt_layout_last_line :
    let lines := Text.lines (excerpt "far" "int a;" ⟨UInt64.size - 1, 0⟩ .plain false).toList
    lines = [[], "far".toList, "0 |".toList, "  | ^".toList, "1 | int a;".toList] ∧
      "18446744073709551616 |".toList ∉ lines := by
  intro lines
  have hlines : lines =
      [[], "far".toList, "0 |".toList, "  | ^".toList, "1 | int a;".toList] := by
    simp only [lines, excerpt, String.toList_ofList]
    decide +kernel
  refine ⟨hlines, ?_⟩
  rw [hlines]
  decide

end Script.Diagnostic
