import Script.Lexer.Scanner
import Script.Diagnostic
/-!
# The lexer

Cuts a source into tokens, one at a time or all at once. After an error a lexer has no more tokens.
-/

namespace Script

structure Tokenized where
  file : Option String
  tokens : List Token
deriving DecidableEq, Repr

structure Lexer where
  /-- The source without carriage returns. -/
  source : String
  file : Option String
  /-- Where to go on, unless an error has stopped the lexer. -/
  scanner? : Option Lexer.Scanner

namespace Lexer

def ofSource (source : String) (file : Option String) : Lexer :=
  ⟨String.ofList (Text.withoutReturns source), file, some (Scanner.ofSource source)⟩

/-- The diagnostic for a failure in a source without carriage returns. -/
def diagnose (source : String) (file : Option String) (failure : Failure) :
    Diagnostic LexicalError :=
  ⟨failure.error, failure.position, source, file⟩

/-- The next token or error, none at the end, and the lexer after it. -/
def next (lexer : Lexer) : Option (Except (Diagnostic LexicalError) Token) × Lexer :=
  match lexer.scanner?.map Scanner.step with
  | none => (none, lexer)
  | some .finished => (none, lexer)
  | some (.failed failure) =>
    (some (.error (diagnose lexer.source lexer.file failure)), { lexer with scanner? := none })
  | some (.token token scanner) => (some (.ok token), { lexer with scanner? := some scanner })

theorem next_of_stopped {lexer : Lexer} (h : lexer.scanner? = none) :
    lexer.next = (none, lexer) := by
  simp [next, h]

end Lexer

def tokenize (source : String) (file : Option String) :
    Except (Diagnostic LexicalError) Tokenized :=
  match (Lexer.Scanner.ofSource source).tokens with
  | (tokens, none) => .ok ⟨file, tokens⟩
  | (_, some failure) =>
    .error (Lexer.diagnose (String.ofList (Text.withoutReturns source)) file failure)

end Script
