import Script.Lexer
import Script.Parser.Element
/-!
# Programs

A program is read element by element. Where an element is malformed, reading either ends with its
error, or takes note of it, skips what seems to belong to the element, and goes on.
-/

namespace Script

open Script.Parser

structure Outcome where
  /-- The elements read, in order. -/
  elements : List Element := []
  /-- The errors noted on the way, in order. -/
  noted : List Fault := []
  /-- The error that ended the reading. -/
  fatal? : Option Fault := none

namespace Outcome

def withElement (element? : Option Element) (outcome : Outcome) : Outcome :=
  { outcome with elements := element?.toList ++ outcome.elements }

def withNoted (fault : Fault) (outcome : Outcome) : Outcome :=
  { outcome with noted := fault :: outcome.noted }

end Outcome

/-- How many tokens a malformed statement is taken to have, inside `depth` braces: up to a
semicolon outside of braces, or up to the brace that closes the outermost one. -/
def skippedLength (depth : Nat) : List Token → Nat
  | [] => 0
  | token :: rest =>
    if token.is "\x7b" then skippedLength (depth + 1) rest + 1
    else if token.is "\x7d" then if depth ≤ 1 then 1 else skippedLength (depth - 1) rest + 1
    else if token.is ";" ∧ depth = 0 then 1
    else skippedLength depth rest + 1

theorem skippedLength_pos {tokens : List Token} (depth : Nat) (h : tokens ≠ []) :
    0 < skippedLength depth tokens := by
  cases tokens with
  | nil => exact absurd rfl h
  | cons token rest =>
    rw [skippedLength]
    split
    · omega
    · split
      · split <;> omega
      · split <;> omega

/-- Where reading goes on after an error in the element that begins at the cursor. -/
def resume (start : Cursor) : Cursor := start.advance (skippedLength 0 start.rest)

def readElements (rules : List Rule) (recover : Bool) : Nat → Cursor → Outcome
  | 0, _ => {}
  | n + 1, c =>
    if c.rest.isEmpty then {}
    else
      match (element rules).run c with
      | .ok (element?, d) => (readElements rules recover n d).withElement element?
      | .error fault =>
        if recover then (readElements rules recover n (resume c)).withNoted fault
        else { fatal? := some fault }

/-- Reads all elements. Each of them takes a token, so there are no more than tokens. -/
def readProgram (rules : List Rule) (recover : Bool) (tokens : List Token) : Outcome :=
  readElements rules recover tokens.length (.start tokens)

structure Settings where
  /-- The label of the source. -/
  file : Option String := none
  /-- Whether to go on after an error. -/
  recover : Bool := false
  /-- Whether errors are logged with an excerpt of the source. -/
  verbose : Bool := false
  /-- The rules, in the order in which they are asked. -/
  rules : List Rule := Rule.defaults

/-- A program, and the errors that were passed over to read it. -/
structure Parsed where
  root : Root
  errors : List (Diagnostic SyntaxError) := []

namespace Settings

def diagnose (settings : Settings) (source : String) (fault : Fault) : Diagnostic SyntaxError :=
  let (text, label) :=
    fault.origin?.getD (String.ofList (Text.withoutReturns source), settings.file)
  ⟨fault.kind, fault.position, text, label⟩

def parse (settings : Settings) (tokens : List Token) (source : String) :
    Except (Diagnostic SyntaxError) Parsed :=
  let outcome := readProgram settings.rules settings.recover tokens
  match outcome.fatal? with
  | some fault => .error (settings.diagnose source fault)
  | none =>
    .ok { root := ⟨settings.file, outcome.elements⟩
          errors := outcome.noted.map (settings.diagnose source) }

/-- How an error that is passed over is told: in one sentence, or at full length. -/
def logEntry (settings : Settings) (terminal : Bool) (error : Diagnostic SyntaxError) : String :=
  if settings.verbose then error.render .auto terminal else error.message

end Settings

inductive SourceError where
  /-- It cannot be cut into tokens. -/
  | lexical (error : Diagnostic LexicalError)
  /-- Its tokens are no program. -/
  | grammatical (error : Diagnostic SyntaxError)

def parseSource (settings : Settings) (source : String) : Except SourceError Parsed :=
  match tokenize source settings.file with
  | .error error => .error (.lexical error)
  | .ok tokenized =>
    match settings.parse tokenized.tokens source with
    | .error error => .error (.grammatical error)
    | .ok parsed => .ok parsed

end Script
