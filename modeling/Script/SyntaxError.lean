import Script.Diagnostic
import Script.Identifier
/-!
# Errors of the grammar

The kinds of error that tokens can hold when they are no program.
-/

namespace Script

inductive SyntaxError where
  | unexpectedKeyword (word : String)
  | constantFunction
  | uninitializedConstant
  /-- Something else was due, named with its quotes. -/
  | expected (what : String)
  | invalidIdentifier (text : String) (fault : IdentifierFault)
  | unknownLiteral (text : String)
  | invalidNumber (text : String)
  | unexpectedEnd
  | unsupportedStatement (word : String)
  | unexpectedToken (text : String)
  | notAnExpression
deriving DecidableEq, Repr

namespace SyntaxError

def wording : SyntaxError → String
  | .unexpectedKeyword word => "Unexpected keyword '" ++ word ++ "' at {position}"
  | .constantFunction => "Functions cannot be declared as constant at {position}"
  | .uninitializedConstant => "Constants must be initialized at {position}"
  | .expected what => "Expected " ++ what ++ " at {position}"
  | .invalidIdentifier text fault =>
    "Invalid identifier '" ++ text ++ "' at {position}: " ++ fault.message
  | .unknownLiteral text => "Could not determine literal type of '" ++ text ++ "' at {position}"
  | .invalidNumber text => "Invalid number '" ++ text ++ "' at {position}"
  | .unexpectedEnd => "Unexpected end of input at {position}"
  | .unsupportedStatement word =>
    "'" ++ word ++ "' statements are not supported yet at {position}"
  | .unexpectedToken text => "Unexpected token '" ++ text ++ "' at {position}"
  | .notAnExpression => "Expected an expression at {position}"

instance : Worded SyntaxError := ⟨wording⟩

def text? : SyntaxError → Option String
  | .unexpectedKeyword text | .expected text | .invalidIdentifier text _ | .unknownLiteral text
  | .invalidNumber text | .unsupportedStatement text | .unexpectedToken text => some text
  | .constantFunction | .uninitializedConstant | .unexpectedEnd | .notAnExpression => none

/-- The text of a token that is wrong in itself. What is said to be expected is no such text. -/
def quoted? : SyntaxError → Option String
  | .unexpectedKeyword text | .invalidIdentifier text _ | .unknownLiteral text
  | .invalidNumber text | .unsupportedStatement text | .unexpectedToken text => some text
  | .constantFunction | .uninitializedConstant | .expected _ | .unexpectedEnd
  | .notAnExpression => none

end SyntaxError

end Script
