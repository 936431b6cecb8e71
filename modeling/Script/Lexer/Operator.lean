/-!
# Operators

Operators and punctuation are tokens of one or two characters. They need no gap beside them, and of
two operators that begin alike the longer one is read.
-/

namespace Script.Lexer

def operators : List String :=
  ["[]", "(", ")", "\x7b", "\x7d", "[", "]", "<<", ">>", "==", "!=", "<=", ">=", "<", ">", "!",
    "&&", "||", "^^", "++", "--", "=", ".", "%", "-", "+", "/", "**", "*", "^", "&", "~", "|", ";",
    ",", ":"]

def isOperator (text : List Char) : Bool := operators.any (·.toList == text)

theorem isOperator_iff {text : List Char} :
    isOperator text = true ↔ text ∈ operators.map String.toList := by
  simp only [isOperator, List.any_eq_true, beq_iff_eq, List.mem_map]

/-! ### Reading an operator -/

/-- The operators of two characters, in the order in which they are tried. -/
def pairs : List String :=
  ["[]", "<<", ">>", "==", "!=", "<=", ">=", "&&", "||", "^^", "++", "--", "**"]

theorem length_of_mem_pairs {pair : String} (h : pair ∈ pairs) : pair.toList.length = 2 := by
  have hlengths : ∀ pair ∈ pairs, pair.toList.length = 2 := by decide
  exact hlengths pair h

def singles : String := "()\x7b\x7d[]<>!=.%-+/*^&~|;,:"

/-- The length of the operator at the front of a text. Each pair is tried, and after them the first
character alone. -/
def operatorLength? (text : List Char) : Option Nat :=
  match pairs.find? (·.toList.isPrefixOf text) with
  | some pair => some pair.length
  | none => if text.head?.any (· ∈ singles.toList) then some 1 else none

def BeginsWithPair (text : List Char) : Prop := ∃ pair ∈ pairs, pair.toList <+: text

theorem operatorLength?_cases (text : List Char) :
    (BeginsWithPair text ∧ operatorLength? text = some 2) ∨
      ¬BeginsWithPair text ∧
        ((∃ c ∈ text.head?, c ∈ singles.toList) ∧ operatorLength? text = some 1 ∨
          (∀ c ∈ text.head?, c ∉ singles.toList) ∧ operatorLength? text = none) := by
  rw [operatorLength?]
  cases hfind : pairs.find? (·.toList.isPrefixOf text) with
  | some pair =>
    have hmem := List.mem_of_find?_eq_some hfind
    have hpair := List.find?_some hfind
    rw [List.isPrefixOf_iff_prefix] at hpair
    have hlength := length_of_mem_pairs hmem
    rw [String.length_toList] at hlength
    exact .inl ⟨⟨pair, hmem, hpair⟩, congrArg some hlength⟩
  | none =>
    have hnone : ¬BeginsWithPair text := by
      rintro ⟨pair, hmem, hpair⟩
      exact List.find?_eq_none.1 hfind pair hmem (List.isPrefixOf_iff_prefix.2 hpair)
    refine .inr ⟨hnone, ?_⟩
    cases text with
    | nil => simp
    | cons c text => by_cases hc : c ∈ singles.toList <;> simp [hc]

theorem operatorLength?_bounds {text : List Char} {n : Nat} (h : operatorLength? text = some n) :
    0 < n ∧ n ≤ text.length := by
  rcases operatorLength?_cases text with
    ⟨⟨pair, hmem, hpair⟩, htwo⟩ | ⟨-, ⟨⟨c, hc, -⟩, hone⟩ | ⟨-, hnone⟩⟩
  · have hle := hpair.length_le
    rw [length_of_mem_pairs hmem] at hle
    obtain rfl := Option.some.inj (htwo.symm.trans h)
    omega
  · obtain rfl := Option.some.inj (hone.symm.trans h)
    cases text with
    | nil => cases hc
    | cons => simp
  · rw [hnone] at h
    cases h

end Script.Lexer
