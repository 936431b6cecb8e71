import Script.Literal
import Script.Parser.Rule
/-!
# Expressions

Where a value is due: what a rule makes a value of, a value in parentheses, a call, a literal, or a
reference, in this order.
-/

namespace Script.Parser

variable {α : Type}

def itemsBody (item : Parser α) (more : Parser (List α)) : Parser (List α) := do
  let first ← item
  if ← accept "," then return first :: (← more)
  else do
    expect ")" "',' or ')'"
    return [first]

def parenthesized (item : Parser α) : Parser (List α) := do
  expect "(" "'('"
  if ← accept ")" then return [] else recursive (itemsBody item)

def call (argument : Parser Value) : Parser Value := do
  let name ← identifier
  let arguments ← parenthesized argument
  return .call ⟨name.value, false, arguments, name.position⟩

def atom : Parser Value := do
  let token ← token
  match Literal.ofToken token with
  | .ok literal => return .literal literal
  | .error kind =>
    if Identifier.isValid token.value then return .reference ⟨token.value, token.position⟩
    else failAt kind token.position

def plain (inner : Parser Value) : Parser Value := do
  match ← upcoming with
  | [] => fail .unexpectedEnd
  | token :: rest =>
    if token.is "(" then do
      skip 1
      let value ← inner
      expect ")" "')'"
      return value
    else if startsWith rest "(" then call inner
    else atom

def expressionBody (rules : List Rule) (inner : Parser Value) : Parser Value := do
  match ← byRule rules true with
  | none => plain inner
  | some element =>
    match element.value? with
    | some value => return value
    | none => failAt .notAnExpression element.position

def expression (rules : List Rule) : Parser Value := recursive (expressionBody rules)

end Script.Parser
