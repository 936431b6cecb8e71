import Script.Lexer.Operator
import Script.Text.Blank
/-!
# Shapes of tokens

What may stand at the front of a text: a gap of blanks and comments, a quoted string, an operator
or a word. Each shape is given by the number of characters it takes.
-/

namespace Script.Lexer

/-- The length of the gap at the front of a text. A comment begins with two slashes and goes up to
the end of its line, which is a blank again; `inComment` tells that one has begun. -/
def gapLength (inComment : Bool) : List Char → Nat
  | [] => 0
  | c :: text =>
    if inComment then gapLength (c != '\n') text + 1
    else if Text.isBlank c then gapLength false text + 1
    else if c = '/' ∧ text.head? = some '/' then gapLength true text + 1
    else 0

def isQuote (c : Char) : Bool := c = '"' || c = '\''

/-- The length of a string behind its opening quote, with the closing quote, if it is closed on its
line. A backslash takes the character after it along. -/
def closingLength? (quote : Char) : List Char → Option Nat
  | [] => none
  | c :: text =>
    if c = quote then some 1
    else if c = '\n' then none
    else if c = '\\' then
      match text with
      | [] => none
      | d :: text => if d = '\n' then none else (closingLength? quote text).map (· + 2)
    else (closingLength? quote text).map (· + 1)

/-- How far a word goes on: up to a blank or an operator. A quote does not end it. -/
def wordLength : List Char → Nat
  | [] => 0
  | c :: text =>
    if Text.isBlank c || (operatorLength? (c :: text)).isSome then 0 else wordLength text + 1

/-- The length of the token `c :: text` begins with. There is none where a string is not closed or
a blank stands; a word may begin with anything else. -/
def tokenLength? (c : Char) (text : List Char) : Option Nat :=
  if isQuote c then (closingLength? c text).map (· + 1)
  else
    match operatorLength? (c :: text) with
    | some n => some n
    | none => if Text.isBlank c then none else some (wordLength text + 1)

private theorem wordLength_le (text : List Char) : wordLength text ≤ text.length := by
  induction text with
  | nil => simp [wordLength]
  | cons c text ih =>
    simp only [wordLength, List.length_cons]
    split <;> omega

private theorem closingLength?_bounds {quote : Char} {text : List Char} {n : Nat}
    (h : closingLength? quote text = some n) : 0 < n ∧ n ≤ text.length := by
  fun_induction closingLength? quote text generalizing n <;>
    grind [Option.map_eq_some_iff]

theorem tokenLength?_bounds {c : Char} {text : List Char} {n : Nat}
    (h : tokenLength? c text = some n) : 0 < n ∧ n ≤ text.length + 1 := by
  rw [tokenLength?] at h
  split at h
  · obtain ⟨m, hm, rfl⟩ := Option.map_eq_some_iff.1 h
    have := closingLength?_bounds hm
    omega
  · split at h
    · next m ho =>
      obtain rfl := Option.some.inj h
      simpa using operatorLength?_bounds ho
    · split at h
      · cases h
      · obtain rfl := Option.some.inj h
        have := wordLength_le text
        omega

end Script.Lexer
