import Script.Proofs.Writing.Literals
/-!
# Numbers with a base

A number with a sign for its base is a word, and it spells the number that its digits have in this
base. Zeros in front do not count, and neither does the case of a letter. Only a number that is too
large for an integer is not read.
-/

namespace Script.Literal

open Lexer

variable {base n zeros value : Nat} {c : Char} {text front : List Char}

def baseSigns : List (Nat × Char) := [(16, 'x'), (16, 'X'), (2, 'b'), (2, 'B')]

theorem one_lt_of_mem (hbase : base ∈ [16, 2]) : 1 < base := by
  have hbases : ∀ base ∈ [16, 2], 1 < base := by decide
  exact hbases base hbase

/-! ### Digits -/

private theorem eq_toLower_or_eq_toUpper (c : Char) : c = c.toLower ∨ c = c.toLower.toUpper := by
  have hcapitals : ∀ k < 26, Char.ofNat (65 + k) = (Char.ofNat (65 + k)).toLower.toUpper := by
    decide
  by_cases h : c.val ≥ 'A'.val ∧ c.val ≤ 'Z'.val
  · have hlow : 65 ≤ c.toNat := UInt32.le_iff_toNat_le.1 h.1
    have hhigh : c.toNat ≤ 90 := UInt32.le_iff_toNat_le.1 h.2
    have hcapital := hcapitals (c.toNat - 65) (by omega)
    rw [Nat.add_sub_cancel' hlow, Char.ofNat_toNat] at hcapital
    exact .inr hcapital
  · have hsame : c.toLower = c := dif_neg h
    exact .inl hsame.symm

theorem digitValue?_of_toLower (hbase : base ∈ [16, 2]) (hvalue : value < base)
    (hc : c.toLower = Nat.digitChar value) :
    digitValue? base c = some value ∧ Identifier.isFollowing c = true := by
  have hsmall : ∀ base ∈ [16, 2], ∀ value < base,
      digitValue? base (Nat.digitChar value) = some value ∧
        Identifier.isFollowing (Nat.digitChar value) = true := by
    decide
  have hcapital : ∀ base ∈ [16, 2], ∀ value < base,
      digitValue? base (Nat.digitChar value).toUpper = some value ∧
        Identifier.isFollowing (Nat.digitChar value).toUpper = true := by
    decide
  rcases eq_toLower_or_eq_toUpper c with h | h
  · rw [h, hc]
    exact hsmall base hbase value hvalue
  · rw [h, hc]
    exact hcapital base hbase value hvalue

private theorem exists_digitChar_of_mem_toDigits (hbase : 1 < base) (h : c ∈ Nat.toDigits base n) :
    ∃ value < base, c = Nat.digitChar value := by
  induction n using Nat.strongRecOn with
  | _ n ih =>
    rw [Nat.toDigits_eq_if hbase] at h
    split at h
    · next hn => exact ⟨n, hn, List.mem_singleton.1 h⟩
    · next hn =>
      have hpos : 0 < n := by omega
      rcases List.mem_append.1 h with h | h
      · exact ih _ (Nat.div_lt_self hpos hbase) h
      · exact ⟨n % base, Nat.mod_lt n (by omega), List.mem_singleton.1 h⟩

/-! ### The number that digits spell -/

theorem ofDigits?_append_singleton (base : Nat) (text : List Char) (c : Char) :
    ofDigits? base (text ++ [c]) =
      (ofDigits? base text).bind fun n => (digitValue? base c).map (base * n + ·) := by
  simp [ofDigits?]

/-- The last digit counts once, and the ones before it as often as the base says. -/
theorem exists_ofDigits?_eq (hbase : base ∈ [16, 2]) (hvalue : value < base)
    (h : text.map Char.toLower = front ++ [Nat.digitChar value]) :
    ∃ digits, digits.map Char.toLower = front ∧
      ofDigits? base text = (ofDigits? base digits).map (base * · + value) := by
  obtain ⟨digits, last, rfl, hdigits, hlast⟩ := List.map_eq_append_iff.1 h
  obtain ⟨c, rest, rfl, hc, hrest⟩ := List.map_eq_cons_iff.1 hlast
  obtain rfl := List.map_eq_nil_iff.1 hrest
  refine ⟨digits, hdigits, ?_⟩
  rw [ofDigits?_append_singleton, (digitValue?_of_toLower hbase hvalue hc).1]
  cases ofDigits? base digits with
  | none => rfl
  | some m => rfl

private theorem ofDigits?_zeros (hbase : base ∈ [16, 2])
    (h : text.map Char.toLower = List.replicate zeros '0') : ofDigits? base text = some 0 := by
  induction zeros generalizing text with
  | zero =>
    obtain rfl := List.map_eq_nil_iff.1 h
    rfl
  | succ zeros ih =>
    have hpos : 0 < base := Nat.zero_lt_of_lt (one_lt_of_mem hbase)
    rw [List.replicate_succ'] at h
    obtain ⟨digits, hdigits, hvalue⟩ := exists_ofDigits?_eq hbase hpos h
    rw [hvalue, ih hdigits]
    rfl

/-- Digits of a number spell it, in either case and with any number of zeros in front. -/
theorem ofDigits?_eq_some (hbase : base ∈ [16, 2])
    (h : text.map Char.toLower = List.replicate zeros '0' ++ Nat.toDigits base n) :
    ofDigits? base text = some n := by
  have hone := one_lt_of_mem hbase
  -- all digits but the last one are those of the number that a division leaves
  induction n using Nat.strongRecOn generalizing text with
  | _ n ih =>
    rw [Nat.toDigits_eq_if hone] at h
    split at h
    · next hn =>
      obtain ⟨digits, hdigits, hvalue⟩ := exists_ofDigits?_eq hbase hn h
      rw [hvalue, ofDigits?_zeros hbase hdigits]
      simp
    · next hn =>
      have hlast : n % base < base := Nat.mod_lt n (by omega)
      have hlt : n / base < n := Nat.div_lt_self (by omega) hone
      rw [← List.append_assoc] at h
      obtain ⟨digits, hdigits, hvalue⟩ := exists_ofDigits?_eq hbase hlast h
      rw [hvalue, ih _ hlt hdigits, Option.map_some, Nat.div_add_mod]

/-! ### Reading numbers -/

theorem isFollowing_of_mem (hbase : base ∈ [16, 2])
    (h : text.map Char.toLower = List.replicate zeros '0' ++ Nat.toDigits base n) :
    ∀ c ∈ text, Identifier.isFollowing c = true := by
  intro c hc
  have hone := one_lt_of_mem hbase
  have hmem : c.toLower ∈ text.map Char.toLower := List.mem_map_of_mem hc
  rw [h] at hmem
  rcases List.mem_append.1 hmem with hzero | hdigit
  · have hlower : c.toLower = Nat.digitChar 0 := (List.mem_replicate.1 hzero).2
    exact (digitValue?_of_toLower hbase (by omega) hlower).2
  · obtain ⟨value, hvalue, hlower⟩ := exists_digitChar_of_mem_toDigits hone hdigit
    exact (digitValue?_of_toLower hbase hvalue hlower).2

private theorem integer?_eq (hbase : base ∈ [16, 2])
    (h : text.map Char.toLower = List.replicate zeros '0' ++ Nat.toDigits base n) :
    integer? base text = if n < integerBound then some n else none := by
  have hdigits := ofDigits?_eq_some hbase h
  cases text with
  | nil =>
    have hempty := List.append_eq_nil_iff.1 h.symm
    exact absurd hempty.2 Nat.toDigits_ne_nil
  | cons c text =>
    have hplus : c ≠ '+' := by
      rintro rfl
      exact absurd (isFollowing_of_mem hbase h '+' List.mem_cons_self) (by decide)
    simp [integer?, hplus, hdigits, Option.filter_some]

theorem based?_eq_some {sign : Char} (hsign : (base, sign) ∈ baseSigns) (text : List Char) :
    based? ('0' :: sign :: text) = some (base, text) := by
  simp only [baseSigns, List.mem_cons, Prod.mk.injEq, List.not_mem_nil, or_false] at hsign
  rcases hsign with ⟨rfl, rfl⟩ | ⟨rfl, rfl⟩ | ⟨rfl, rfl⟩ | ⟨rfl, rfl⟩
  · rfl
  · rfl
  · rfl
  · rfl

/-- A number with a sign for its base is one token, and it is read as an integer, in decimal, unless
it is too large for one. -/
theorem numbers_in_bases {sign : Char} (hsign : (base, sign) ∈ baseSigns) {digits : List Char}
    (h : digits.map Char.toLower = List.replicate zeros '0' ++ Nat.toDigits base n)
    (file : Option String) :
    let source := String.ofList ('0' :: sign :: digits)
    tokenize source file = .ok ⟨file, [⟨{}, source⟩]⟩ ∧
      ofToken ⟨{}, source⟩ =
        if n < UInt64.size then .ok ⟨.int, n.repr, {}⟩ else .error (.invalidNumber source) := by
  intro source
  have hsigns : ∀ p ∈ baseSigns, p.1 ∈ [16, 2] ∧ Identifier.isFollowing p.2 = true := by decide
  obtain ⟨hbase, hfollowing⟩ := hsigns _ hsign
  have hword : ∀ c ∈ '0' :: sign :: digits, Identifier.isFollowing c = true :=
    List.forall_mem_cons.2 ⟨rfl, List.forall_mem_cons.2 ⟨hfollowing, isFollowing_of_mem hbase h⟩⟩
  constructor
  · have hread : ReadBefore [] ('0' :: sign :: digits) :=
      .word rfl (fun c hc => Identifier.inWord_of_isFollowing (hword c hc)) (by simp)
    exact hread.tokenize_eq (fun hmem => absurd (hword _ hmem) (by decide)) file
  · have hbound : integerBound = UInt64.size := rfl
    have hread : read source = number source := read_of_isDigit rfl String.toList_ofList
    rw [ofToken, hread, number, String.toList_ofList, based?_eq_some hsign]
    simp only [integer?_eq hbase h, hbound]
    by_cases hn : n < UInt64.size
    · rw [if_pos hn, if_pos hn]
    · rw [if_neg hn, if_neg hn]

/-- A number in letters of both cases, and the least number that is too large. -/
theorem numbers_in_bases_mixed :
    let digits := ['0', '0', 'f', 'F']
    let large := '1' :: List.replicate 64 '0'
    ((16, 'X') ∈ baseSigns ∧
        digits.map Char.toLower = List.replicate 2 '0' ++ Nat.toDigits 16 255 ∧
        tokenize "0X00fF" none = .ok ⟨none, [⟨{}, "0X00fF"⟩]⟩ ∧
        ofToken ⟨{}, "0X00fF"⟩ = .ok ⟨.int, "255", {}⟩) ∧
      (2, 'b') ∈ baseSigns ∧
        large.map Char.toLower = List.replicate 0 '0' ++ Nat.toDigits 2 UInt64.size ∧
        ofToken ⟨{}, String.ofList ('0' :: 'b' :: large)⟩ =
          .error (.invalidNumber (String.ofList ('0' :: 'b' :: large))) := by
  intro digits large
  have hX : (16, 'X') ∈ baseSigns := by decide
  have hb : (2, 'b') ∈ baseSigns := by decide
  have hdigits : digits.map Char.toLower = List.replicate 2 '0' ++ Nat.toDigits 16 255 := by
    decide
  have hlarge : large.map Char.toLower = List.replicate 0 '0' ++ Nat.toDigits 2 UInt64.size := by
    decide +kernel
  obtain ⟨htokens, hread⟩ := numbers_in_bases hX hdigits none
  obtain ⟨-, hunread⟩ := numbers_in_bases hb hlarge none
  exact ⟨⟨hX, hdigits, htokens, hread⟩, hb, hlarge, hunread⟩

end Script.Literal
