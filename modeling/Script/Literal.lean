import Script.Keyword
import Script.SyntaxError
import Script.Token
import Script.Tree
/-!
# Literals

The tokens that spell a constant: quoted strings, numbers, and the words for truth values and for
nothing. Reading one settles its kind and its text: a string without quotes and escapes, a number
in decimal and without its suffix.
-/

namespace Script

namespace Literal

/-- The text that an escaped text stands for. A backslash with nothing behind it stands for
itself. -/
def unescape : List Char → List Char
  | [] => []
  | ['\\'] => ['\\']
  | '\\' :: c :: text =>
    (match c with
      | 'n' => '\n'
      | 't' => '\t'
      | 'r' => '\r'
      | '0' => '\x00'
      | c => c) :: unescape text
  | c :: text => c :: unescape text

/-- What stands behind an opening quote, up to the closing one if there is one. -/
def unquote (quote : Char) (text : List Char) : List Char :=
  if text.getLast? = some quote then text.dropLast else text

def digitValue? (base : Nat) (c : Char) : Option Nat :=
  let value? :=
    if c.isDigit then some (c.toNat - '0'.toNat)
    else if 'a' ≤ c ∧ c ≤ 'f' then some (c.toNat - 'a'.toNat + 10)
    else if 'A' ≤ c ∧ c ≤ 'F' then some (c.toNat - 'A'.toNat + 10)
    else none
  value?.filter (· < base)

/-- The number spelled by digits of a base, the first digit counting most. -/
def ofDigits? (base : Nat) (digits : List Char) : Option Nat :=
  digits.foldlM (fun n c => (digitValue? base c).map (base * n + ·)) 0

def integerBound : Nat := UInt64.size

/-- An integer of a base: digits, which may have a plus sign before them. -/
def integer? (base : Nat) (text : List Char) : Option Nat :=
  let digits := match text with
    | '+' :: digits => digits
    | digits => digits
  if digits.isEmpty then none else (ofDigits? base digits).filter (· < integerBound)

def based? : List Char → Option (Nat × List Char)
  | '0' :: 'x' :: text | '0' :: 'X' :: text => some (16, text)
  | '0' :: 'b' :: text | '0' :: 'B' :: text => some (2, text)
  | _ => none

def suffixed (text : List Char) : LiteralKind × List Char :=
  match text.getLast? with
  | some 'f' | some 'F' => (.float, text.dropLast)
  | some 'd' | some 'D' => (.double, text.dropLast)
  | _ => (.int, text)

/-- The kind and text of a number. One with a sign for its base becomes decimal. -/
def number (value : String) : Except SyntaxError (LiteralKind × String) :=
  match based? value.toList with
  | some (base, text) =>
    match integer? base text with
    | some n => .ok (.int, n.repr)
    | none => .error (.invalidNumber value)
  | none =>
    let (kind, digits) := suffixed value.toList
    if digits.isEmpty || !digits.all Char.isDigit then .error (.unknownLiteral value)
    else .ok (kind, String.ofList digits)

theorem number_eq_ok_cases {value text : String} {kind : LiteralKind}
    (h : number value = .ok (kind, text)) :
    (∃ base digits n, based? value.toList = some (base, digits) ∧
        integer? base digits = some n ∧ kind = .int ∧ text = n.repr) ∨
      ∃ digits, suffixed value.toList = (kind, digits) ∧ digits ≠ [] ∧
        (∀ c ∈ digits, c.isDigit = true) ∧ text = String.ofList digits := by
  unfold number at h
  split at h
  · next base digits hbased =>
    split at h
    · next n hinteger =>
      cases h
      exact .inl ⟨base, digits, n, hbased, hinteger, rfl, rfl⟩
    · cases h
  · right
    generalize suffixed value.toList = pair at h
    obtain ⟨kind', digits⟩ := pair
    simp only at h
    split at h
    · cases h
    · next hdigits =>
      cases h
      simp only [Bool.or_eq_true, List.isEmpty_iff, Bool.not_eq_true', not_or,
        Bool.not_eq_false, List.all_eq_true] at hdigits
      exact ⟨digits, rfl, hdigits.1, hdigits.2, rfl⟩

theorem number_eq_error_cases {value : String} {error : SyntaxError}
    (h : number value = .error error) :
    (based? value.toList).isSome ∧ error = .invalidNumber value ∨
      based? value.toList = none ∧ error = .unknownLiteral value := by
  unfold number at h
  split at h
  · next hbased =>
    split at h
    · cases h
    · cases h
      exact .inl ⟨Option.isSome_of_eq_some hbased, rfl⟩
  · next hbased =>
    simp only at h
    split at h
    · cases h
      exact .inr ⟨hbased, rfl⟩
    · cases h

def read (value : String) : Except SyntaxError (LiteralKind × String) :=
  match value.toList with
  | [] => .error (.unknownLiteral value)
  | c :: text =>
    if c = '"' ∨ c = '\'' then .ok (.string, String.ofList (unescape (unquote c text)))
    else if c.isDigit then number value
    else match Keyword.ofText? value with
      | some .trueWord | some .falseWord => .ok (.boolean, value)
      | some .nullWord => .ok (.null, value)
      | _ => .error (.unknownLiteral value)

def ofToken (token : Token) : Except SyntaxError Literal :=
  match read token.value with
  | .ok (kind, text) => .ok ⟨kind, text, token.position⟩
  | .error kind => .error kind

end Literal

end Script
