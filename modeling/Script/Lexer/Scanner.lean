import Script.Diagnostic
import Script.Lexer.Shape
import Script.Text.Lines
import Script.Token
/-!
# Scanning

A scanner stands somewhere in a source. One step skips the gap before it and reads a token. A
source without carriage returns is its tokens and the gaps between them, in order.
-/

namespace Script

inductive LexicalError where
  | unterminatedString
  /-- No token begins with the text. -/
  | unrecognized (text : String)
deriving DecidableEq, Repr

namespace LexicalError

def wording : LexicalError → String
  | .unterminatedString => "Unterminated string literal at {position}"
  | .unrecognized text => "Could not tokenize " ++ Text.quoted text ++ " at {position}"

instance : Worded LexicalError := ⟨wording⟩

/-- The error of a reader that failed with some texts left to read. It tells of the first one, up to
its first blank. -/
def ofRests (rests : List String) : LexicalError :=
  .unrecognized (String.ofList ((rests.headD "").toList.takeWhile (!Text.isBlank ·)))

end LexicalError

namespace Lexer

structure Scanner where
  /-- Where the text not yet read begins. -/
  position : Position := {}
  rest : List Char
deriving DecidableEq, Repr

structure Failure where
  error : LexicalError
  position : Position
deriving DecidableEq, Repr

inductive Scan where
  | finished
  /-- No token can be read here. -/
  | failed (failure : Failure)
  | token (token : Token) (next : Scanner)

namespace Scanner

/-- A scanner at the start of a source. Carriage returns are no part of the text. -/
def ofSource (source : String) : Scanner := { rest := Text.withoutReturns source }

def advance (n : Nat) (s : Scanner) : Scanner :=
  ⟨s.position.after (s.rest.take n), s.rest.drop n⟩

def skipGap (s : Scanner) : Scanner := s.advance (gapLength false s.rest)

def step (s : Scanner) : Scan :=
  let s := s.skipGap
  match s.rest with
  | [] => .finished
  | c :: text =>
    match tokenLength? c text with
    | none =>
      .failed
        ⟨if isQuote c then .unterminatedString else .ofRests [String.ofList s.rest], s.position⟩
    | some n => .token ⟨s.position, String.ofList (s.rest.take n)⟩ (s.advance n)

private theorem length_advance (n : Nat) (s : Scanner) :
    (s.advance n).rest.length = s.rest.length - n := by
  simp [advance]

theorem length_lt_of_step {s s' : Scanner} {t : Token} (h : s.step = .token t s') :
    s'.rest.length < s.rest.length := by
  rw [step] at h
  have hgap : s.skipGap.rest.length ≤ s.rest.length := by
    rw [skipGap, length_advance]
    omega
  generalize s.skipGap = u at h hgap
  cases hu : u.rest with
  | nil => simp [hu] at h
  | cons c text =>
    cases hn : tokenLength? c text with
    | none => simp [hu, hn] at h
    | some n =>
      simp only [hu, hn, Scan.token.injEq] at h
      obtain ⟨-, rfl⟩ := h
      have := (tokenLength?_bounds hn).1
      rw [length_advance, hu, List.length_cons]
      simp only [hu, List.length_cons] at hgap
      omega

/-- The tokens of at most `n` steps, and what stopped them before the end. -/
def scan : Nat → Scanner → List Token × Option Failure
  | 0, _ => ([], none)
  | n + 1, s =>
    match s.step with
    | .finished => ([], none)
    | .failed failure => ([], some failure)
    | .token token next =>
      let (tokens, failure?) := scan n next
      (token :: tokens, failure?)

/-- The tokens of a scanner's text: every token takes a character, so no more steps are needed than
there are characters. -/
def tokens (s : Scanner) : List Token × Option Failure := s.scan s.rest.length

end Scanner

end Lexer

end Script
