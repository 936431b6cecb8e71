import Script.Proofs.Lexer.Front
import Script.Proofs.Lexer.Partition
/-!
# Sources one below the other

No token goes on beyond its line, and neither does a comment. So of two sources, the one written
below the other, each is cut as it is alone, and the lower one is only moved down.
-/

namespace Script

namespace Position

def down (n : Nat) (p : Position) : Position := { p with line := p.line + n }

private theorem next_down (p : Position) (n : Nat) (c : Char) :
    (p.down n).next c = (p.next c).down n := by
  by_cases hc : c = '\n'
  · simp only [next, down, hc, if_true, Nat.add_right_comm]
  · simp only [next, down, advanced, hc, if_false]

private theorem after_down (p : Position) (n : Nat) (text : List Char) :
    (p.down n).after text = (p.after text).down n := by
  induction text generalizing p with
  | nil => rfl
  | cons c text ih => rw [after_cons, after_cons, next_down, ih]

private theorem after_line (text : List Char) :
    after {} (text ++ ['\n']) = down (1 + text.count '\n') {} := by
  have hbehind := after_behind [] (text ++ ['\n'])
  rw [List.nil_append] at hbehind
  calc after {} (text ++ ['\n'])
      = behind (text ++ ['\n']) := hbehind
    _ = ⟨text.count '\n' + 1, 0⟩ := by simp [behind]
    _ = down (1 + text.count '\n') {} := by simp [down, Nat.add_comm]

end Position

def Token.down (n : Nat) (t : Token) : Token := { t with position := t.position.down n }

namespace Lexer

variable {position : Position} {text rest : List Char} {tokens : List Token}
  {unclosed? : Option Position}

private theorem Cut.down (h : Cut position text tokens unclosed?) (n : Nat) :
    Cut (position.down n) text (tokens.map (Token.down n)) (unclosed?.map (Position.down n)) := by
  induction h with
  | finished hgap => exact .finished hgap
  | @unclosed position gap text quote hgap hopens =>
    rw [Option.map_some, ← Position.after_down]
    exact .unclosed hgap hopens
  | @token position gap token rest tokens unclosed? hgap htoken h ih =>
    rw [← Position.after_down, ← Position.after_down] at ih
    rw [List.map_cons, Token.down, ← Position.after_down]
    exact .token hgap htoken ih

/-- What stands in the lines below does not close a string. -/
theorem OpensString.append_line {quote : Char} (h : OpensString quote text) (more : List Char) :
    OpensString quote (text ++ '\n' :: more) where
  isQuote := h.isQuote
  not_closes {body after} heq hbody := by
    rcases List.append_eq_append_iff.1 heq with ⟨body', rfl, hafter⟩ | ⟨after', rfl, -⟩
    · cases body' with
      | nil => exact h.not_closes (List.append_nil text).symm (by simpa using hbody)
      | cons c body' =>
        obtain ⟨rfl, -⟩ := List.cons.inj hafter
        exact hbody.newline_notMem h.isQuote (by simp)
    · exact h.not_closes rfl hbody

private theorem Cut.append_line (h : Cut position text tokens none) {more : List Char}
    {moreTokens : List Token}
    (hmore : Cut (position.after (text ++ ['\n'])) more moreTokens unclosed?) :
    Cut position (text ++ '\n' :: more) (tokens ++ moreTokens) unclosed? := by
  have hfront : Front ('\n' :: more) position text tokens :=
    (front_nil_iff.2 h).before (beginsLike_line [] more)
  have hnewline : Gap more ['\n'] := .blank Text.isBlank_newline .nil
  rw [Position.after_append] at hmore
  exact hfront.append_cut (hmore.gap_append hnewline)

/-- A string that is not closed stops the lexer, whatever stands in the lines below. -/
theorem Cut.append_line_of_unclosed {place : Position} (h : Cut position text tokens (some place))
    (more : List Char) : Cut position (text ++ '\n' :: more) tokens (some place) := by
  obtain ⟨before, quote, after, rfl, hopens, hfront, rfl⟩ := h.exists_front
  have hline : BeginsLike (quote :: after) (quote :: (after ++ '\n' :: more)) :=
    fun c hc => .inl hc
  rw [List.append_assoc, List.cons_append]
  exact (hfront.before hline).cut_unclosed (hopens.append_line more)

end Lexer

open Lexer

private theorem Text.withoutReturns_append_line (above below : String) :
    withoutReturns (above ++ "\n" ++ below) =
      withoutReturns above ++ '\n' :: withoutReturns below := by
  simp [withoutReturns, String.toList_append]

private theorem Text.count_newline_withoutReturns (source : String) :
    (withoutReturns source).count '\n' = source.toList.count '\n' := by
  rw [withoutReturns, List.count_filter (by decide)]

/-- Of two sources, one below the other, the tokens are those of the upper and then those of the
lower, as many lines further down as the upper has. An error in the upper source comes first, and
one in the lower is moved down like its tokens. -/
theorem tokenize_append_line (above below : String) (file : Option String) :
    let lines := 1 + above.toList.count '\n'
    let source := String.ofList (Text.withoutReturns (above ++ "\n" ++ below))
    tokenize (above ++ "\n" ++ below) file =
      match tokenize above file with
      | .error error => .error { error with source }
      | .ok upper =>
        match tokenize below file with
        | .error error => .error { error with position := error.position.down lines, source }
        | .ok lower => .ok ⟨file, upper.tokens ++ lower.tokens.map (Token.down lines)⟩ := by
  intro lines source
  obtain ⟨upper, unclosed?, habove⟩ := exists_cut {} (Text.withoutReturns above)
  have hboth := Text.withoutReturns_append_line above below
  rw [habove.tokenize_eq]
  cases unclosed? with
  | some quote =>
    have hcut := habove.append_line_of_unclosed (Text.withoutReturns below)
    rw [← hboth] at hcut
    exact hcut.tokenize_eq file
  | none =>
    obtain ⟨lower, unclosed?, hbelow⟩ := exists_cut {} (Text.withoutReturns below)
    have hmoved := hbelow.down lines
    have hstart : Position.down lines {} =
        Position.after {} (Text.withoutReturns above ++ ['\n']) := by
      rw [Position.after_line, Text.count_newline_withoutReturns]
    rw [hstart] at hmoved
    have hcut := habove.append_line hmoved
    rw [← hboth] at hcut
    rw [hbelow.tokenize_eq, hcut.tokenize_eq]
    cases unclosed? with
    | none => rfl
    | some quote => rfl

end Script
