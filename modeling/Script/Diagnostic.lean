import Script.Diagnostic.Excerpt
/-!
# Diagnostics

A diagnostic is an error of some kind at a position of a source. It knows the whole source, so that
it can be shown together with the lines it is about. A kind of error has a wording with a placeholder
in it, which stands for the position of the error.
-/

namespace Script

class Worded (κ : Type) where
  /-- The words, with the placeholder where the position belongs. -/
  wording : κ → String

structure Diagnostic (κ : Type) where
  kind : κ
  position : Position
  /-- The text in which the position lies. -/
  source : String
  /-- The label of the file that the text came from. -/
  file : Option String := none
deriving DecidableEq, Repr

namespace Diagnostic

variable {κ : Type} [Worded κ]

def message (d : Diagnostic κ) : String := fillIn (Worded.wording d.kind) d.position

def render (d : Diagnostic κ) (style : Style) (terminal : Bool) : String :=
  excerpt (Worded.wording d.kind) d.source d.position style terminal

end Diagnostic

end Script
