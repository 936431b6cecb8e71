import Script.Proofs.Lexer.Cut
/-!
# Nothing of a source is lost

A source that has tokens is these tokens with gaps around them, and of each token it is known where
it stands: its position counts the newlines before it, and the characters since the last of these.
-/

namespace Script

namespace Position

/-- The position behind a text: the newlines of the text, and the characters behind the last. -/
def behind (text : List Char) : Position :=
  ⟨text.count '\n', (text.reverse.takeWhile (· ≠ '\n')).length⟩

theorem next_behind (text : List Char) (c : Char) :
    (behind text).next c = behind (text ++ [c]) := by
  by_cases hc : c = '\n'
  · simp [next, behind, hc]
  · simp [next, behind, advanced, hc]

theorem after_behind (text more : List Char) :
    (behind text).after more = behind (text ++ more) := by
  induction more generalizing text with
  | nil => rw [after_nil, List.append_nil]
  | cons c more ih => rw [after_cons, next_behind, ih, List.append_assoc, List.singleton_append]

end Position

namespace Lexer

/-- The text that follows `before` in a source consists of the tokens and of gaps around them. -/
inductive Partition : List Char → List Char → List Token → Prop
  | gap {before gap : List Char} (hgap : Gap [] gap) : Partition before gap []
  | token {before gap rest : List Char} {t : Token} {tokens : List Token}
      (hgap : Gap (t.value.toList ++ rest) gap) (hne : t.value ≠ "") (hline : '\n' ∉ t.value.toList)
      (hposition : t.position = .behind (before ++ gap))
      (hend : t.endPosition = .behind (before ++ gap ++ t.value.toList))
      (h : Partition (before ++ gap ++ t.value.toList) rest tokens) :
      Partition before (gap ++ (t.value.toList ++ rest)) (t :: tokens)

/-- The pieces of a cut stand where the text before them ends. -/
theorem Cut.partition {position : Position} {text : List Char} {tokens : List Token}
    {unclosed? : Option Position} (h : Cut position text tokens unclosed?)
    (hunclosed : unclosed? = none) {before : List Char} (hbefore : position = .behind before) :
    Partition before text tokens := by
  induction h generalizing before with
  | finished hgap => exact .gap hgap
  | unclosed => cases hunclosed
  | @token position gap token rest tokens unclosed? hgap htoken h ih =>
    obtain ⟨value, rfl⟩ : ∃ value : String, token = value.toList :=
      ⟨String.ofList token, String.toList_ofList.symm⟩
    have hline := htoken.newline_notMem
    have hstart : position.after gap = .behind (before ++ gap) := by
      rw [hbefore, Position.after_behind]
    have hend : (position.after gap).after value.toList =
        .behind (before ++ gap ++ value.toList) := by
      rw [hstart, Position.after_behind]
    have hne : value ≠ "" := by
      rintro rfl
      exact htoken.ne_nil rfl
    have hbehind : (position.after gap).advanced value.length =
        .behind (before ++ gap ++ value.toList) := by
      rw [← hend, Position.after_eq_advanced _ hline, String.length_toList]
    rw [String.ofList_toList]
    exact .token (t := ⟨_, value⟩) hgap hne hline hstart hbehind (ih hunclosed hend)

theorem exists_readBefore {source : String} {file : Option String} {tokenized : Tokenized}
    (h : tokenize source file = .ok tokenized) {t : Token} (ht : t ∈ tokenized.tokens) :
    ∃ ahead rest, Text.withoutReturns source = ahead ++ (t.value.toList ++ rest) ∧
      t.position = .behind ahead ∧ ReadBefore rest t.value.toList := by
  obtain ⟨-, hcut⟩ := tokenize_eq_ok_iff.1 h
  obtain ⟨ahead, rest, htext, hposition, hread⟩ := hcut.exists_of_mem ht
  exact ⟨ahead, rest, htext, hposition.trans (Position.after_behind [] ahead), hread⟩

end Lexer

/-- A token does not end at a line or a column beyond the length of its source. The sums in
positions of tokens thus stay far below the `2 ^ 64` at which a machine's would start over. -/
theorem tokenize_endPosition_le {source : String} {file : Option String} {tokenized : Tokenized}
    (h : tokenize source file = .ok tokenized) {t : Token} (ht : t ∈ tokenized.tokens) :
    t.endPosition.line + t.endPosition.column ≤ source.length := by
  obtain ⟨ahead, rest, htext, hposition, hread⟩ := Lexer.exists_readBefore h ht
  have hstart : Position.after {} ahead = t.position :=
    (Position.after_behind [] ahead).trans hposition.symm
  have hend : Position.after {} (ahead ++ t.value.toList) = t.endPosition := by
    rw [Position.after_append, hstart, Position.after_eq_advanced _ hread.newline_notMem,
      String.length_toList]
    rfl
  have hcount : t.endPosition.line + t.endPosition.column ≤
      0 + 0 + (ahead ++ t.value.toList).length :=
    hend ▸ Position.line_add_column_after_le {} (ahead ++ t.value.toList)
  have hlength : (Text.withoutReturns source).length ≤ source.length := by
    rw [← String.length_toList]
    exact List.length_filter_le ..
  rw [htext, ← List.append_assoc, List.length_append] at hlength
  omega

/-- A source that has tokens is made of them and of gaps. -/
theorem tokenize_partition {source : String} {file : Option String} {tokenized : Tokenized}
    (h : tokenize source file = .ok tokenized) :
    Lexer.Partition [] (Text.withoutReturns source) tokenized.tokens := by
  obtain ⟨-, hcut⟩ := tokenize_eq_ok_iff.1 h
  exact hcut.partition rfl rfl

/-- A comment touches a word, a carriage return stands in the gap, and a string has a quote and a
character of two bytes. -/
theorem tokenize_partition_touching :
    tokenize "a//b'\r\n 'é\\''=x'" none = .ok ⟨none,
      [⟨⟨0, 0⟩, "a"⟩, ⟨⟨1, 1⟩, "'é\\''"⟩, ⟨⟨1, 6⟩, "="⟩, ⟨⟨1, 7⟩, "x'"⟩]⟩ ∧
    Lexer.Partition [] (Text.withoutReturns "a//b'\r\n 'é\\''=x'")
      [⟨⟨0, 0⟩, "a"⟩, ⟨⟨1, 1⟩, "'é\\''"⟩, ⟨⟨1, 6⟩, "="⟩, ⟨⟨1, 7⟩, "x'"⟩] := by
  have htokens : tokenize "a//b'\r\n 'é\\''=x'" none = .ok ⟨none,
      [⟨⟨0, 0⟩, "a"⟩, ⟨⟨1, 1⟩, "'é\\''"⟩, ⟨⟨1, 6⟩, "="⟩, ⟨⟨1, 7⟩, "x'"⟩]⟩ := by
    decide +kernel
  exact ⟨htokens, tokenize_partition htokens⟩

end Script
