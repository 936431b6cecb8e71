import Script.Position
import Script.Text.Blank
import Script.Text.Lines
import Script.Text.Replace
/-!
# Excerpts

A message above the lines it is about. The rows are the message, the line before the position, the
line of the position, a caret below its column, and the line after:

    Unexpected keyword 'const' at line 1, column 6
    1 | int a = 1;
    2 | const const int x = 1;
      |       ^
    3 | int b = 2;

A row is made of painted segments. It is trimmed and cut as a whole, and only then written, so its
colours never change its text.
-/

namespace Script.Diagnostic

def placeholder : String := "{position}"

def fillIn (text : String) (position : Position) : String :=
  Text.replaceAll placeholder position.describe text

inductive Style where
  | plain
  | ansi
  /-- With colours if the terminal shows them. -/
  | auto
deriving DecidableEq, Repr

def Style.coloured (terminal : Bool) : Style → Bool
  | .plain => false
  | .ansi => true
  | .auto => terminal

inductive Paint where
  | normal
  | dim
  | highlight
  | caret
deriving DecidableEq, Repr

/-- The number of the colour; normal text keeps the one of the terminal. -/
def Paint.code? : Paint → Option String
  | .normal => none
  | .dim => some "90"
  | .highlight => some "31"
  | .caret => some "33"

def colourCode (code : String) : List Char := '\x1b' :: '[' :: (code.toList ++ ['m'])

structure Segment where
  paint : Paint
  text : List Char
deriving DecidableEq, Repr

/-- The segment's text, between colour codes if it has a colour and is not empty. -/
def Segment.write (coloured : Bool) (segment : Segment) : List Char :=
  match segment.paint.code? with
  | none => segment.text
  | some code =>
    if coloured && !segment.text.isEmpty then
      colourCode code ++ segment.text ++ colourCode "39"
    else segment.text

@[simp] theorem Segment.write_false (segment : Segment) :
    segment.write false = segment.text := by
  rw [Segment.write]
  split <;> simp

abbrev Row := List Segment

namespace Row

def text (row : Row) : List Char := row.flatMap Segment.text

def cut : Nat → Row → Row
  | _, [] => []
  | n, segment :: row =>
    { segment with text := segment.text.take n } :: cut (n - segment.text.length) row

private theorem text_cut (n : Nat) (row : Row) : (row.cut n).text = row.text.take n := by
  induction row generalizing n with
  | nil => simp [cut, text]
  | cons segment row ih =>
    have ih := ih (n - segment.text.length)
    simp only [text] at ih
    simp [cut, text, List.take_append, ih]

def maxWidth : Nat := 80

/-- How many characters of a row are written: it is trimmed at its end, then cut. -/
def shown (row : Row) : Nat := min (Text.trimEnd row.text).length maxWidth

def write (coloured : Bool) (row : Row) : List Char :=
  (row.cut row.shown).flatMap (Segment.write coloured)

theorem write_false (row : Row) :
    row.write false = (Text.trimEnd row.text).take maxWidth := by
  have hw : (row.cut row.shown).flatMap (Segment.write false) = (row.cut row.shown).text := by
    rw [text, funext Segment.write_false]
  obtain ⟨blanks, hb, -⟩ := Text.exists_trimEnd_append row.text
  rw [write, hw, text_cut, shown]
  generalize Text.trimEnd row.text = kept at hb
  rw [hb, List.take_append_of_le_length (Nat.min_le_left _ _), Nat.min_comm, ← List.take_take,
    List.take_length]

end Row

/-- What stands before a source line: its number on the right of a field, and a rule. -/
def gutter (width : Nat) (number : List Char) : List Char :=
  number.leftpad width ' ' ++ [' ', '|', ' ']

/-- The count of the line `n` lines below another. Lines are counted in words of 64 bits, and behind
the last of these the count starts over. -/
def lineBelow (line n : Nat) : Nat := (line + n) % UInt64.size

theorem lineBelow_eq_add {line n : Nat} (h : line + n < UInt64.size) : lineBelow line n = line + n :=
  Nat.mod_eq_of_lt h

def lineNumber (line : Nat) : List Char := (lineBelow line 1).repr.toList

/-- The width of the line numbers: that of the line after the position. -/
def numberWidth (position : Position) : Nat := (lineBelow position.line 2).repr.length

/-- The source as an excerpt shows it: no carriage returns, and no character that begins a colour
code. -/
def shownSource (source : String) : List Char :=
  (Text.withoutReturns source).map fun c => if c = '\x1b' then ' ' else c

def neighbourRow? (lines : List (List Char)) (width line : Nat) : Option Row :=
  lines[line]?.map fun text => [⟨.dim, gutter width (lineNumber line) ++ text⟩]

def markedRow (text : List Char) (width : Nat) (position : Position) : Row :=
  let tail := text.drop position.column
  [⟨.dim, gutter width (lineNumber position.line)⟩,
    ⟨.normal, text.take position.column⟩,
    ⟨.highlight, tail.takeWhile (!Text.isBlank ·)⟩,
    ⟨.normal, tail.dropWhile (!Text.isBlank ·)⟩]

def caretRow (width : Nat) (position : Position) : Row :=
  [⟨.dim, gutter width []⟩, ⟨.normal, List.replicate position.column ' '⟩, ⟨.caret, ['^']⟩]

/-- The rows of an excerpt. A position behind the end of the source has an empty line. -/
def rows (message source : String) (position : Position) : List Row :=
  let lines := Text.lines (shownSource source)
  let width := numberWidth position
  let before? := if position.line = 0 then none else neighbourRow? lines width (position.line - 1)
  let after? := neighbourRow? lines width (lineBelow position.line 1)
  [⟨.normal, (fillIn message position).toList⟩] ::
    (before?.toList ++
      markedRow (lines[position.line]?.getD []) width position ::
      caretRow width position ::
      after?.toList)

def excerpt (message source : String) (position : Position) (style : Style)
    (terminal : Bool) : String :=
  String.ofList (Text.block ((rows message source position).map (Row.write (style.coloured terminal))))

end Script.Diagnostic
