import Script.Parser.Expression
/-!
# Declarations

A declaration is told from other statements by looking ahead. It has modifiers, a type and a name,
and maybe a value; a function has parameters and a body.
-/

namespace Script.Parser

variable {α : Type}

/-- How many tokens at the front spell array suffixes: each is one token, or two brackets. -/
def suffixLength : List Token → Nat
  | [] => 0
  | token :: rest =>
    if token.is "[]" then suffixLength rest + 1
    else
      match rest with
      | [] => 0
      | next :: rest => if token.is "[" && next.is "]" then suffixLength rest + 2 else 0

theorem suffixLength_joined {token : Token} {rest : List Token} (h : token.value = "[]") :
    suffixLength (token :: rest) = suffixLength rest + 1 := by
  cases rest <;> simp [suffixLength, Token.is, h]

theorem suffixLength_split {left right : Token} {rest : List Token} (hl : left.value = "[")
    (hr : right.value = "]") : suffixLength (left :: right :: rest) = suffixLength rest + 2 := by
  simp [suffixLength, Token.is, hl, hr]

theorem suffixLength_eq_zero_iff {tokens : List Token} :
    suffixLength tokens = 0 ↔ startsWith tokens "[]" = false ∧
      (startsWith tokens "[" && startsWith (tokens.drop 1) "]") = false := by
  match tokens with
  | [] => simp [suffixLength]
  | [token] => by_cases hjoined : token.is "[]" <;> simp [suffixLength, hjoined]
  | token :: next :: rest =>
    by_cases hjoined : token.is "[]"
    · simp [suffixLength, hjoined]
    · by_cases hsplit : token.is "[" && next.is "]" <;> simp [suffixLength, hjoined, hsplit]

def isModifier (token : Token) : Bool := (Keyword.ofText? token.value).any (·.isModifier)

/-- Whether the tokens look like a declaration: a modifier, an assignment sign behind two tokens,
or a type and a name before the end of a statement or an assignment sign. -/
def declares (tokens : List Token) : Bool :=
  startsWith (tokens.drop 2) "=" || tokens.head?.any isModifier ||
    match tokens.drop (1 + suffixLength (tokens.drop 1)) with
    | _ :: behind => startsWith behind ";" || startsWith behind "="
    | [] => false

def suffixesBody (more : Parser String) : Parser String := do
  if ← accept "[]" then return "[]" ++ (← more)
  else
    let tokens ← upcoming
    if startsWith tokens "[" && startsWith (tokens.drop 1) "]" then do
      skip 2
      return "[]" ++ (← more)
    else return ""

def typeName : Parser String := do
  let name ← identifier
  let suffixes ← recursive suffixesBody
  return name.value ++ suffixes

structure Modifiers where
  exported : Bool
  constant : Bool
deriving DecidableEq, Repr

def Modifiers.add? (seen : Modifiers) (word : String) : Option Modifiers :=
  if word = "export" then if seen.exported then none else some { seen with exported := true }
  else if seen.constant then none else some { seen with constant := true }

/-- Reads the modifiers at the front of the tokens ahead, besides those that were read before. -/
def modifiersBehind (seen : Modifiers) : List Token → Parser Modifiers
  | [] => return seen
  | token :: rest =>
    if isModifier token then
      match seen.add? token.value with
      | some seen => do
        skip 1
        modifiersBehind seen rest
      | none => fail (.unexpectedKeyword token.value)
    else return seen

def modifiers : Parser Modifiers := do modifiersBehind ⟨false, false⟩ (← upcoming)

/-- Requires a statement to end here, or to have ended with the token just read. -/
def finish : Parser Unit := do
  if (← previous).any (·.is ";") then return () else expect ";" "';'"

def parameter : Parser Parameter := do
  let position ← here
  let type ← typeName
  let name ← identifier
  return ⟨name.value, type, position⟩

/-- The elements up to a closing brace. Empty statements leave no element. -/
def blockBody (element : Parser (Option α)) (more : Parser (List α)) : Parser (List α) := do
  match ← upcoming with
  | [] => fail (.expected "'\x7d'")
  | token :: _ =>
    if token.is "\x7d" then do
      skip 1
      return []
    else do
      let first ← element
      return first.toList ++ (← more)

def function (element : Parser (Option Element)) (exported : Bool) (position : Position) :
    Parser (Declaration Element) := do
  expect "func" "'func'"
  let name ← identifier
  let parameters ← parenthesized parameter
  let returnType ← typeName
  expect "\x7b" "'\x7b'"
  let body ← recursive (blockBody element)
  return ⟨name.value, exported, position, .function ⟨returnType, parameters, body⟩⟩

def initializer (rules : List Rule) (constant : Bool) : Parser (Option Value) := do
  if ← sees ";" then
    if constant then fail .uninitializedConstant
    else do
      skip 1
      return none
  else do
    expect "=" "';' or '='"
    let value ← expression rules
    finish
    return some value

def binding (constant : Bool) (type : String) : Option Value → Binding Element
  | some value => if constant then .constant type value else .variable type (some value)
  | none => .variable type none

/-- A declaration from its modifiers on; `element` reads what stands in a function's body. -/
def declaration (rules : List Rule) (element : Parser (Option Element)) :
    Parser (Declaration Element) := do
  let position ← here
  let ⟨exported, constant⟩ ← modifiers
  if ← sees "func" then
    if constant then fail .constantFunction else function element exported position
  else do
    let type ← typeName
    let name ← identifier
    let value? ← initializer rules constant
    return ⟨name.value, exported, position, binding constant type value?⟩

end Script.Parser
