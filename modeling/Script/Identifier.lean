/-!
# Identifiers

An identifier is made of the letters, digits and signs of the ASCII alphabet below; other alphabets
have no place in one.
-/

namespace Script

inductive IdentifierFault where
  | empty
  | leadingDigit
  | invalidCharacters
deriving DecidableEq, Repr

def IdentifierFault.message : IdentifierFault → String
  | .empty => "identifiers can not be empty"
  | .leadingDigit => "identifiers can not start with a digit"
  | .invalidCharacters =>
    "identifiers may only contain letters, digits, '_', '$', '#' and '@'"

namespace Identifier

def isInitial (c : Char) : Bool := c.isAlpha || c = '$' || c = '#' || c = '@'

def isFollowing (c : Char) : Bool := isInitial c || c.isDigit || c = '_'

def fault? (text : String) : Option IdentifierFault :=
  match text.toList with
  | [] => some .empty
  | c :: cs =>
    if c.isDigit then some .leadingDigit
    else if isInitial c && cs.all isFollowing then none
    else some .invalidCharacters

def isValid (text : String) : Bool := (fault? text).isNone

theorem isInitial_of_isDigit {c : Char} (h : c.isDigit = true) : isInitial c = false := by
  simp only [Char.isDigit, Bool.and_eq_true, decide_eq_true_eq, ge_iff_le,
    UInt32.le_iff_toNat_le] at h
  have h9 : c.val.toNat ≤ 57 := h.2
  have h0 : 48 ≤ c.val.toNat := h.1
  have hne (d : Char) (hd : d.val.toNat < 48 ∨ 57 < d.val.toNat) : c ≠ d := by
    rintro rfl
    omega
  have hu : c.isUpper = false := by
    show decide (c.val ≥ 'A'.val ∧ c.val ≤ 'Z'.val) = false
    rw [decide_eq_false_iff_not]
    intro hu
    have : 65 ≤ c.val.toNat := UInt32.le_iff_toNat_le.1 hu.1
    omega
  have hl : c.isLower = false := by
    show (decide (c.val ≥ 'a'.val) && decide (c.val ≤ 'z'.val)) = false
    rw [← Bool.decide_and, decide_eq_false_iff_not]
    intro hl
    have : 97 ≤ c.val.toNat := UInt32.le_iff_toNat_le.1 hl.1
    omega
  have ha : c.isAlpha = false := by
    show (c.isUpper || c.isLower) = false
    rw [hu, hl]
    rfl
  simp [isInitial, ha, hne '$' (by decide), hne '#' (by decide), hne '@' (by decide)]

theorem isValid_iff {text : String} :
    isValid text = true ↔
      ∃ c cs, text.toList = c :: cs ∧ isInitial c = true ∧ ∀ d ∈ cs, isFollowing d = true := by
  rw [isValid, fault?]
  cases text.toList with
  | nil => simp
  | cons c cs =>
    by_cases hd : c.isDigit = true
    · simp [hd, isInitial_of_isDigit hd]
    · by_cases hc : isInitial c = true
      · simp only [hd, hc, Bool.true_and, Bool.false_eq_true, if_false]
        constructor
        · intro h
          exact ⟨c, cs, rfl, hc, by simpa using h⟩
        · rintro ⟨d, ds, h, -, hds⟩
          obtain ⟨-, rfl⟩ := List.cons.inj h
          simpa using hds
      · simp [hd, hc]

end Identifier

end Script
