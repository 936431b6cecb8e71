import Script.Parser.Declaration
/-!
# Elements

A program is a sequence of elements, and so is a function's body. The first tokens of an element
decide what it is.
-/

namespace Script.Parser

def assignment (rules : List Rule) : Parser Assignment := do
  let name ← identifier
  expect "=" "'='"
  let value ← expression rules
  finish
  return ⟨name.value, value, name.position⟩

/-- The result of a function: an internal call of `return`. -/
def returning (rules : List Rule) : Parser Value := do
  let keyword ← token
  let value ← expression rules
  finish
  return .call ⟨"return", true, [value], keyword.position⟩

def valueStatement (rules : List Rule) : Parser Value := do
  let value ← expression rules
  finish
  return value

def statement (rules : List Rule) (element : Parser (Option Element)) (token : Token)
    (rest : List Token) : Parser Element :=
  let keyword? := Keyword.ofText? token.value
  if keyword? = some .returnWord then return .value (← returning rules)
  else if keyword?.any (·.isStatement) then fail (.unsupportedStatement token.value)
  else if startsWith rest "(" then return .value (← valueStatement rules)
  else if declares (token :: rest) then return .declaration (← declaration rules element)
  else if keyword? = some .funcWord then
    return .declaration (← function element false token.position)
  else if startsWith rest "=" then return .assignment (← assignment rules)
  else fail (.unexpectedToken token.value)

/-- An element with others inside it. An empty statement is none. -/
def elementBody (rules : List Rule) (inner : Parser (Option Element)) :
    Parser (Option Element) := do
  match ← upcoming with
  | [] => return none
  | token :: rest =>
    if token.is ";" then do
      skip 1
      return none
    else
      match ← byRule rules false with
      | some element => return some element
      | none => return some (← statement rules inner token rest)

def element (rules : List Rule) : Parser (Option Element) := recursive (elementBody rules)

end Script.Parser
