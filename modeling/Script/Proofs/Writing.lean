import Script.Lexer.Shape
import Script.Tree
import Script.Keyword
import Script.Identifier
/-!
# Writing programs

How a tree is written as a source. A node is spelled by the texts of its tokens, and a style lays
these out: it chooses the gaps between them and the quotes around strings. Not every tree can be
written; the ones that can are the ones with names for names and with nothing in a place where the
language has no way to write it.
-/

namespace Script

/-! ### Styles -/

def writtenSigns : List String := ["(", ")", "\x7b", "\x7d", ",", ";", "=", "[]", "++", "--"]

/-- Side by side the texts would be read differently: two words become one, and so do two
assignment signs. -/
def NeedsGap (a b : String) : Prop :=
  a ∉ writtenSigns ∧ b ∉ writtenSigns ∨ a = "=" ∧ b = "="

structure Style where
  /-- The quote around a string. -/
  quote : String → Char
  isQuote_quote : ∀ text, Lexer.isQuote (quote text) = true
  /-- What stands between two texts. -/
  gap : String → String → String
  isBlank_gap : ∀ a b, ∀ c ∈ (gap a b).toList, Text.isBlank c = true ∧ c ≠ '\r'
  gap_ne_empty : ∀ a b, NeedsGap a b → gap a b ≠ ""

namespace Style

def write (style : Style) : List String → String
  | [] => ""
  | [a] => a
  | a :: b :: rest => a ++ style.gap a b ++ style.write (b :: rest)

def escaped (quote c : Char) : List Char :=
  if c = '\\' then ['\\', '\\']
  else if c = quote then ['\\', quote]
  else if c = '\n' then ['\\', 'n']
  else if c = '\r' then ['\\', 'r']
  else [c]

theorem escaped_cases (quote c : Char) :
    escaped quote c = [c] ∧ c ≠ '\\' ∧ c ≠ quote ∧ c ≠ '\n' ∧ c ≠ '\r' ∨
      ∃ d, escaped quote c = ['\\', d] ∧
        (d = c ∧ (c = '\\' ∨ c = quote) ∨ d = 'n' ∧ c = '\n' ∨ d = 'r' ∧ c = '\r') := by
  unfold escaped
  by_cases hslash : c = '\\'
  · rw [if_pos hslash]
    exact .inr ⟨'\\', rfl, .inl ⟨hslash.symm, .inl hslash⟩⟩
  rw [if_neg hslash]
  by_cases hquote : c = quote
  · rw [if_pos hquote]
    exact .inr ⟨quote, rfl, .inl ⟨hquote.symm, .inr hquote⟩⟩
  rw [if_neg hquote]
  by_cases hn : c = '\n'
  · rw [if_pos hn]
    exact .inr ⟨'n', rfl, .inr (.inl ⟨rfl, hn⟩)⟩
  rw [if_neg hn]
  by_cases hr : c = '\r'
  · rw [if_pos hr]
    exact .inr ⟨'r', rfl, .inr (.inr ⟨rfl, hr⟩)⟩
  rw [if_neg hr]
  exact .inl ⟨rfl, hslash, hquote, hn, hr⟩

def quoted (style : Style) (text : String) : String :=
  String.ofList (style.quote text ::
    (text.toList.flatMap (escaped (style.quote text)) ++ [style.quote text]))

/-- A statement a line, and blanks only where they help to read it. -/
def usual : Style where
  quote _ := '"'
  isQuote_quote _ := rfl
  gap a b :=
    if a ∈ [";", "\x7b", "\x7d"] then "\n"
    else if a ∈ ["(", "++", "--"] ∨ b ∈ ["(", ")", ",", ";", "[]", "++", "--"] then ""
    else " "
  isBlank_gap a b := by
    split
    · exact List.forall_mem_singleton.2 (by decide)
    · split
      · exact List.forall_mem_nil _
      · exact List.forall_mem_singleton.2 (by decide)
  gap_ne_empty a b h := by
    split
    · decide
    · have hbefore : ∀ s ∈ ["(", "++", "--"], s ∈ writtenSigns := by decide
      have hbehind : ∀ s ∈ ["(", ")", ",", ";", "[]", "++", "--"], s ∈ writtenSigns := by decide
      rw [if_neg]
      · decide
      · rcases h with ⟨hfirst, hsecond⟩ | ⟨rfl, rfl⟩
        · rintro (hsign | hsign)
          · exact hfirst (hbefore a hsign)
          · exact hsecond (hbehind b hsign)
        · decide

end Style

/-! ### Spelling -/

def suffixes : Nat → String
  | 0 => ""
  | n + 1 => "[]" ++ suffixes n

def typeSpelling (type : String) : List String :=
  let base := type.toList.takeWhile (· ≠ '[')
  String.ofList base :: List.replicate ((type.length - base.length) / 2) "[]"

def modifierSpelling (exported constant : Bool) : List String :=
  (if exported then ["export"] else []) ++ if constant then ["const"] else []

def itemsSpelling : List (List String) → List String
  | [] => [")"]
  | [item] => item ++ [")"]
  | item :: items => item ++ "," :: itemsSpelling items

def inParentheses (items : List (List String)) : List String := "(" :: itemsSpelling items

def operationSpelling (name : String) (argument : List String) : List String :=
  if name = "preincrement" then "++" :: argument
  else if name = "predecrement" then "--" :: argument
  else if name = "postincrement" then argument ++ ["++"]
  else if name = "postdecrement" then argument ++ ["--"]
  else name :: argument

namespace Literal

def spelling (style : Style) (l : Literal) : String :=
  match l.kind with
  | .string => style.quoted l.text
  | .float => l.text ++ "f"
  | .double => l.text ++ "d"
  | .boolean | .null | .int => l.text

end Literal

section

variable (style : Style)

mutual

def Value.spelling : Value → List String
  | .call node => Call.spelling node
  | .reference node => [node.name]
  | .literal node => [node.spelling style]
termination_by structural value => value

def Call.spelling : Call Value → List String
  | ⟨name, internal, arguments, _⟩ =>
    if internal then operationSpelling name (Value.listSpelling arguments).flatten
    else name :: inParentheses (Value.listSpelling arguments)
termination_by structural node => node

def Value.listSpelling : List Value → List (List String)
  | [] => []
  | value :: values => value.spelling :: Value.listSpelling values
termination_by structural values => values

end

def Value.terminated (value : Value) : List String := value.spelling style ++ [";"]

def Parameter.spelling (p : Parameter) : List String := typeSpelling p.type ++ [p.name]

mutual

/-- Control flow is not written, for it is not read either. -/
def Element.spelling : Element → List String
  | .declaration node => Declaration.spelling node
  | .assignment node => node.name :: "=" :: node.value.terminated style
  | .value node => node.terminated style
  | .statement _ => []
termination_by structural element => element

def Declaration.spelling : Declaration Element → List String
  | ⟨name, exported, _, binding⟩ => Binding.spelling name exported binding
termination_by structural node => node

def Binding.spelling (name : String) (exported : Bool) : Binding Element → List String
  | .function function =>
    modifierSpelling exported false ++ "func" :: name :: Function.spelling function
  | .constant type value =>
    modifierSpelling exported true ++
      (typeSpelling type ++ name :: "=" :: value.terminated style)
  | .variable type none => modifierSpelling exported false ++ (typeSpelling type ++ [name, ";"])
  | .variable type (some value) =>
    modifierSpelling exported false ++
      (typeSpelling type ++ name :: "=" :: value.terminated style)
termination_by structural binding => binding

def Function.spelling : Function Element → List String
  | ⟨returnType, parameters, body⟩ =>
    inParentheses (parameters.map Parameter.spelling) ++
      (typeSpelling returnType ++ "\x7b" :: (Element.listSpelling body ++ ["\x7d"]))
termination_by structural function => function

def Element.listSpelling : List Element → List String
  | [] => []
  | element :: elements => element.spelling ++ Element.listSpelling elements
termination_by structural elements => elements

end

end

/-! ### What can be written -/

/-- An identifier without a meaning of its own. -/
def IsName (text : String) : Prop := Identifier.isValid text = true ∧ Keyword.ofText? text = none

def IsType (text : String) : Prop := ∃ base n, IsName base ∧ text = base ++ suffixes n

def IsNumber (text : String) : Prop := text ≠ "" ∧ ∀ c ∈ text.toList, c.isDigit = true

def Literal.Writable (l : Literal) : Prop :=
  match l.kind with
  | .string => True
  | .boolean => l.text = "true" ∨ l.text = "false"
  | .null => l.text = "null"
  | .int | .float | .double => IsNumber l.text

/-- Values that may stand anywhere. -/
inductive Value.Operand : Value → Prop
  | literal {l : Literal} (h : l.Writable) : Operand (.literal l)
  | reference {r : Reference} (h : IsName r.name) : Operand (.reference r)
  | call {name : String} {arguments : List Value} {position : Position} (hn : IsName name)
      (h : ∀ v ∈ arguments, Operand v) : Operand (.call ⟨name, false, arguments, position⟩)

inductive Value.Counting : Value → Prop
  | intro {operation : String} {r : Reference} {position : Position}
      (ho : operation ∈ ["preincrement", "postincrement", "predecrement", "postdecrement"])
      (h : IsName r.name) : Counting (.call ⟨operation, true, [.reference r], position⟩)

/-- Values that may stand before the end of a statement. -/
def Value.Final (v : Value) : Prop := v.Operand ∨ v.Counting

def Parameter.Writable (p : Parameter) : Prop := IsName p.name ∧ IsType p.type

/-- Declarations, assignments, calls, returned values and steps, functions with such a body. -/
inductive Element.Writable : Element → Prop
  | function {name returnType : String} {exported : Bool} {position : Position}
      {parameters : List Parameter} {body : List Element} (hn : IsName name)
      (hp : ∀ p ∈ parameters, p.Writable) (ht : IsType returnType)
      (h : ∀ e ∈ body, Writable e) :
      Writable (.declaration ⟨name, exported, position, .function ⟨returnType, parameters, body⟩⟩)
  | constant {name type : String} {exported : Bool} {position : Position} {v : Value}
      (hn : IsName name) (ht : IsType type) (h : v.Final) :
      Writable (.declaration ⟨name, exported, position, .constant type v⟩)
  | changeable {name type : String} {exported : Bool} {position : Position} {value? : Option Value}
      (hn : IsName name) (ht : IsType type) (h : ∀ v ∈ value?, v.Final) :
      Writable (.declaration ⟨name, exported, position, .variable type value?⟩)
  | assignment {name : String} {v : Value} {position : Position} (hn : IsName name)
      (h : v.Final) : Writable (.assignment ⟨name, v, position⟩)
  | call {name : String} {arguments : List Value} {position : Position} (hn : IsName name)
      (h : ∀ v ∈ arguments, v.Operand) :
      Writable (.value (.call ⟨name, false, arguments, position⟩))
  | returned {v : Value} {position : Position} (h : v.Final) :
      Writable (.value (.call ⟨"return", true, [v], position⟩))
  | counting {v : Value} (h : v.Counting) : Writable (.value v)

end Script
