import Mathlib.Data.List.Induction
import Script.Proofs.Diagnostic.Lines
import Script.Proofs.Lexer.Partition
/-!
# Excerpts mark the token

The lexer counts newlines and characters on its way through a source, and an excerpt cuts the same
source into lines and looks up the position again. Both see the same: in an excerpt at the position
of a token, the token begins in the marked line where the caret stands below it.
-/

namespace Script

/-! ### Lines behind a text -/

/-- The position behind a text counts the lines that are complete, and the characters of the line
that is not. -/
theorem Position.exists_lines_behind (text : List Char) :
    ∃ above start, '\n' ∉ start ∧ behind text = ⟨above.length, start.length⟩ ∧
      ∀ more, Text.lines (text ++ more) = above ++ Text.lines (start ++ more) := by
  induction text using List.reverseRecOn with
  | nil => exact ⟨[], [], List.not_mem_nil, rfl, fun _ => rfl⟩
  | append_singleton text c ih =>
    obtain ⟨above, start, hstart, hbehind, hlines⟩ := ih
    rw [← next_behind, hbehind]
    by_cases hc : c = '\n'
    · -- The line is complete.
      subst hc
      refine ⟨above ++ [start], [], List.not_mem_nil, by simp [next], fun more => ?_⟩
      rw [List.append_assoc, List.singleton_append, hlines, Text.lines_append_newline,
        Text.lines_eq_singleton hstart, List.append_assoc, List.nil_append]
    · -- The line goes on.
      refine ⟨above, start ++ [c], by simp [hstart, Ne.symm hc], by simp [next, hc, advanced],
        fun more => ?_⟩
      rw [List.append_assoc, hlines, List.append_assoc]

namespace Diagnostic

/-- The line of the position behind its gutter, before it is trimmed and cut. -/
def markedText (source : String) (position : Position) : List Char :=
  gutter (numberWidth position) (lineNumber position.line) ++
    (Text.lines (shownSource source))[position.line]?.getD []

/-- A token stands in the line of its position, behind as many characters as its column says. -/
theorem exists_line {source : String} {file : Option String} {tokenized : Tokenized}
    (htokens : tokenize source file = .ok tokenized) {t : Token} (ht : t ∈ tokenized.tokens) :
    ∃ start more, (Text.lines (shownSource source))[t.position.line]? =
      some (start ++ (shown t.value.toList ++ more)) ∧ start.length = t.position.column := by
  obtain ⟨ahead, behind, htext, hposition, hread⟩ := Lexer.exists_readBefore htokens ht
  have hline := hread.newline_notMem
  obtain ⟨above, start, hstart, hbehind, hlines⟩ := Position.exists_lines_behind ahead
  rw [hbehind] at hposition
  have hfront : '\n' ∉ start ++ t.value.toList := by simp [hstart, hline]
  obtain ⟨more, below, -, hfirst⟩ := Text.exists_lines_append hfront behind
  rw [List.append_assoc] at hfirst
  refine ⟨shown start, shown more, ?_, ?_⟩
  · rw [lines_shownSource, htext, hlines, hfirst, hposition]
    simp [shown]
  · simp [shown, hposition]

private theorem prefix_drop_markedText {source : String} {position : Position}
    {start word more : List Char}
    (hline : (Text.lines (shownSource source))[position.line]? = some (start ++ (word ++ more)))
    (hstart : start.length = position.column) (hcount : position.line + 2 < UInt64.size) :
    word <+: (markedText source position).drop
      (numberWidth position + 3 + position.column) := by
  have hgutter : (gutter (numberWidth position) (lineNumber position.line)).length =
      numberWidth position + 3 :=
    length_gutter (length_lineNumber_le (Nat.le_succ _) hcount)
  have hfront : (gutter (numberWidth position) (lineNumber position.line) ++ start).length =
      numberWidth position + 3 + position.column := by
    rw [List.length_append, hgutter, hstart]
  unfold markedText
  rw [hline, Option.getD_some, ← List.append_assoc, ← hfront, List.drop_left]
  exact List.prefix_append word more

private theorem exists_rows (message : String) {source : String} {position : Position}
    {text : List Char} (hline : (Text.lines (shownSource source))[position.line]? = some text) :
    ∃ above below, above.length = (if position.line = 0 then 1 else 2) ∧
      rows message source position = above ++ markedRow text (numberWidth position) position ::
        caretRow (numberWidth position) position :: below := by
  let message' : Row := [⟨.normal, (fillIn message position).toList⟩]
  let below? := neighbourRow? (Text.lines (shownSource source)) (numberWidth position)
    (lineBelow position.line 1)
  by_cases hzero : position.line = 0
  · refine ⟨[message'], below?.toList, (if_pos hzero).symm, ?_⟩
    simp only [rows, if_pos hzero, hline]
    rfl
  · have hlt := (List.getElem?_eq_some_iff.1 hline).1
    obtain ⟨before, hbefore⟩ : ∃ row, neighbourRow? (Text.lines (shownSource source))
        (numberWidth position) (position.line - 1) = some row :=
      ⟨_, congrArg (Option.map _) (List.getElem?_eq_getElem (by omega))⟩
    refine ⟨[message', before], below?.toList, (if_neg hzero).symm, ?_⟩
    simp only [rows, if_neg hzero, hline, hbefore]
    rfl

private theorem exists_lines_excerpt {message source : String} {position : Position}
    {text : List Char} (hmessage : '\n' ∉ message.toList) (terminal : Bool)
    (hline : (Text.lines (shownSource source))[position.line]? = some text) :
    ∃ above below, above.length = (if position.line = 0 then 2 else 3) ∧
      Text.lines (excerpt message source position .plain terminal).toList =
        above ++ (Text.trimEnd (markedText source position)).take 80 ::
          (caretRow (numberWidth position) position).write false :: below := by
  obtain ⟨above, below, habove, hrows⟩ := exists_rows message hline
  refine ⟨[] :: above.map (Row.write false), below.map (Row.write false), ?_, ?_⟩
  · rw [List.length_cons, List.length_map, habove]
    split <;> rfl
  · rw [lines_excerpt hmessage, hrows, List.map_append, List.map_cons, List.map_cons,
      Row.write_false, text_markedRow]
    unfold markedText
    rw [hline]
    rfl

end Diagnostic

open Diagnostic

/-- In a plain excerpt at the position of a token, the token stands in the marked line, and the
caret stands below its first character unless the row is cut before. No text takes
up more than half of the memory that words of 64 bits can count, so the lines of a source all have
numbers. -/
theorem tokenize_marked {source message : String} {file : Option String} {tokenized : Tokenized}
    (terminal : Bool) (hsource : source.length < UInt64.size / 2)
    (htokens : tokenize source file = .ok tokenized) {t : Token}
    (ht : t ∈ tokenized.tokens) (hmessage : '\n' ∉ message.toList) :
    let width := (t.position.line + 2).repr.length
    let index := width + 3 + t.position.column
    shown t.value.toList <+: (markedText source t.position).drop index ∧
      ∃ above caret below,
        Text.lines (excerpt message source t.position .plain terminal).toList =
          above ++ (Text.trimEnd (markedText source t.position)).take 80 :: caret :: below ∧
        above.length = (if t.position.line = 0 then 2 else 3) ∧
        (index < 80 →
          caret = gutter width [] ++ List.replicate t.position.column ' ' ++ ['^'] ∧
            caret[index]? = some '^') := by
  intro width index
  have hcount : t.position.line + 2 < UInt64.size := by
    have hend := tokenize_endPosition_le htokens ht
    have hline : t.endPosition.line = t.position.line := rfl
    have hroom : UInt64.size / 2 + 2 ≤ UInt64.size := by decide
    omega
  have hwidth : numberWidth t.position = width := numberWidth_eq hcount
  obtain ⟨start, more, hline, hstart⟩ := exists_line htokens ht
  obtain ⟨above, below, habove, hlines⟩ := exists_lines_excerpt hmessage terminal hline
  have hmarked := prefix_drop_markedText hline hstart hcount
  rw [hwidth] at hlines hmarked
  refine ⟨hmarked, above, (caretRow width t.position).write false, below, hlines, habove,
    fun hindex => ?_⟩
  have hcaret := write_caretRow hindex
  have hblank : (gutter width [] ++ List.replicate t.position.column ' ').length = index := by
    rw [List.length_append, length_gutter (Nat.zero_le width), List.length_replicate]
  refine ⟨hcaret, ?_⟩
  rw [hcaret, ← hblank, List.getElem?_concat_length]

/-- A string with a control character and one of two bytes, below a carriage return and an empty
line. -/
theorem tokenize_marked_escape :
    let source := "int é = 1;\r\n\nf('\x1bé');"
    let t : Token := ⟨⟨2, 2⟩, "'\x1bé'"⟩
    source.length < UInt64.size / 2 ∧
      ∃ tokenized, tokenize source none = .ok tokenized ∧ t ∈ tokenized.tokens ∧
      "' é'".toList <+: (markedText source t.position).drop 6 ∧
      ∃ above caret below,
        Text.lines (excerpt "Unexpected {position}" source t.position .plain false).toList =
          above ++ (Text.trimEnd (markedText source t.position)).take 80 :: caret :: below ∧
        above.length = 3 ∧ caret = "  |   ^".toList ∧ caret[6]? = some '^' := by
  intro source t
  have htokens : tokenize source none = .ok ⟨none,
      [⟨⟨0, 0⟩, "int"⟩, ⟨⟨0, 4⟩, "é"⟩, ⟨⟨0, 6⟩, "="⟩, ⟨⟨0, 8⟩, "1"⟩, ⟨⟨0, 9⟩, ";"⟩,
        ⟨⟨2, 0⟩, "f"⟩, ⟨⟨2, 1⟩, "("⟩, t, ⟨⟨2, 6⟩, ")"⟩, ⟨⟨2, 7⟩, ";"⟩]⟩ := by
    decide +kernel
  have ht : t ∈ [⟨⟨0, 0⟩, "int"⟩, ⟨⟨0, 4⟩, "é"⟩, ⟨⟨0, 6⟩, "="⟩, ⟨⟨0, 8⟩, "1"⟩, ⟨⟨0, 9⟩, ";"⟩,
      ⟨⟨2, 0⟩, "f"⟩, ⟨⟨2, 1⟩, "("⟩, t, ⟨⟨2, 6⟩, ")"⟩, ⟨⟨2, 7⟩, ";"⟩] := by simp
  have hsource : source.length < UInt64.size / 2 := by decide
  have hmessage : '\n' ∉ "Unexpected {position}".toList := by decide
  obtain ⟨hword, above, caret, below, hlines, habove, hcaret⟩ :=
    tokenize_marked false hsource htokens ht hmessage
  have hwidth : (t.position.line + 2).repr.length = 1 := by decide
  rw [hwidth] at hword hcaret
  have hshown : shown t.value.toList = "' é'".toList := by decide
  obtain ⟨hrow, hindex⟩ := hcaret (by decide)
  exact ⟨hsource, _, htokens, ht, hshown ▸ hword, above, caret, below, hlines, habove, hrow, hindex⟩

end Script
