import Script.Position
import Script.Text.Hidden
/-!
# Tokens

A token is a piece of the source with the position of its first character. No token spans lines.
-/

namespace Script

structure Token where
  position : Position
  value : String
deriving DecidableEq, Repr, Inhabited

namespace Token

def length (t : Token) : Nat := t.value.length

/-- The position right behind the token. For a token of a text it counts no further than the text is
long. -/
def endPosition (t : Token) : Position := t.position.advanced t.length

theorem position_le_endPosition (t : Token) : t.position ≤ t.endPosition :=
  t.position.le_advanced t.length

def Before (t u : Token) : Prop := t.position < u.position

def is (t : Token) (value : String) : Bool := t.value == value

@[simp] theorem is_iff {t : Token} {value : String} : t.is value = true ↔ t.value = value := by
  simp [is]

def label (t : Token) : String :=
  Text.quoted t.value ++ "@" ++ t.position.line.repr ++ ":" ++ t.position.column.repr

end Token

end Script
