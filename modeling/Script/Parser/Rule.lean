import Script.Parser.Basic
import Script.Tree
/-!
# Rules

A rule recognizes a pattern at the front of the tokens and makes an element of it. Rules are asked
in order, and the first that applies is the one that reads on.
-/

namespace Script

/-- The tokens from the cursor to the end, as a rule sees them. -/
abbrev Window := List Token

namespace Window

/-- The position of the token `n` places ahead, or right behind the last token. -/
def position (window : Window) (n : Nat) : Position :=
  match window[n]? with
  | some token => token.position
  | none => (window.getLast?.map Token.endPosition).getD {}

def fault (window : Window) (n : Nat) (kind : SyntaxError) : Fault :=
  { kind, position := window.position n }

end Window

structure Rule where
  name : String
  applies : Window → Bool
  /-- The element and the number of tokens it is made of. -/
  parse : Window → Except Fault (Element × Nat)
  /-- Whether the rule is asked where a value is due. -/
  producesValue : Bool

namespace Rule

def isStepOperator (token : Token) : Bool := token.is "++" || token.is "--"

def stepName (operator : String) (before : Bool) : String :=
  if operator = "++" then if before then "preincrement" else "postincrement"
  else if operator = "--" ∧ before then "predecrement"
  else "postdecrement"

/-- A variable with a sign on one side, and the end of a statement. -/
def stepApplies : Window → Bool
  | a :: b :: c :: _ =>
    c.is ";" &&
      match isStepOperator a, isStepOperator b with
      | true, false => Identifier.isValid b.value
      | false, true => Identifier.isValid a.value
      | _, _ => false
  | _ => false

def stepParse (window : Window) : Except Fault (Element × Nat) :=
  let before := window[0]?.any isStepOperator
  let (sign, name) := if before then (0, 1) else (1, 0)
  match window[name]? with
  | none => .error (window.fault name .unexpectedEnd)
  | some token =>
    match Identifier.fault? token.value with
    | some fault => .error (window.fault name (.invalidIdentifier token.value fault))
    | none =>
      let operation := stepName ((window[sign]?.map Token.value).getD "") before
      let reference := Value.reference ⟨token.value, token.position⟩
      .ok (.value (.call ⟨operation, true, [reference], window.position 0⟩), 3)

/-- Counting a variable up or down, as a statement: an internal call with the variable as its
argument. -/
def step : Rule where
  name := "increment/decrement"
  applies := stepApplies
  parse := stepParse
  producesValue := true

def defaults : List Rule := [step]

/-- The first rule that applies, among all or among those that produce values. -/
def first? (rules : List Rule) (valuesOnly : Bool) (window : Window) : Option Rule :=
  rules.find? fun rule => (rule.producesValue || !valuesOnly) && rule.applies window

end Rule

namespace Parser

/-- Lets the rules read an element, if one applies. It reads at least one token, and none behind
the last. -/
def byRule (rules : List Rule) (valuesOnly : Bool) : Parser (Option Element) := do
  let window ← upcoming
  match Rule.first? rules valuesOnly window with
  | none => return none
  | some rule =>
    let (element, length) ← ofExcept (rule.parse window)
    skip (min (max length 1) window.length)
    return some element

end Parser

end Script
