import Mathlib.Data.List.Induction
import Script.Proofs.Literal.Numbers
/-!
# Which tokens are literals

The grammar of literals, and the texts that are read as literals. They are those of the grammar and,
as the reader of integers passes over a plus sign, the numbers with a base that have one in front
of their digits. Everything else is refused as a whole, and the error tells whether it began as a
number with a base.
-/

namespace Script.Literal

open Lexer

variable {base n value : Nat} {c : Char} {text digits : List Char} {kind : LiteralKind}

/-! ### The grammar -/

/-- Digits of a base, in either case, and the number they spell. The first digit counts most. -/
inductive Spells (base : Nat) : List Char → Nat → Prop
  | digit {c : Char} {value : Nat} (hvalue : value < base)
      (hc : c.toLower = Nat.digitChar value) : Spells base [c] value
  | more {digits : List Char} {n : Nat} {c : Char} {value : Nat} (h : Spells base digits n)
      (hvalue : value < base) (hc : c.toLower = Nat.digitChar value) :
      Spells base (digits ++ [c]) (base * n + value)

def numberSuffixes : List (LiteralKind × List Char) :=
  [(.int, []), (.float, ['f']), (.float, ['F']), (.double, ['d']), (.double, ['D'])]

inductive IsLiteral : List Char → LiteralKind → List Char → Prop
  | string {quote : Char} {text : List Char} (hq : isQuote quote = true) :
      IsLiteral (quote :: text) .string (unescape (unquote quote text))
  | boolean {word : String} (h : word = "true" ∨ word = "false") :
      IsLiteral word.toList .boolean word.toList
  | null : IsLiteral "null".toList .null "null".toList
  | based {base n : Nat} {sign : Char} {digits : List Char} (hsign : (base, sign) ∈ baseSigns)
      (h : Spells base digits n) (hn : n < UInt64.size) :
      IsLiteral ('0' :: sign :: digits) .int n.repr.toList
  | decimal {digits suffix : List Char} {kind : LiteralKind} (hne : digits ≠ [])
      (hd : ∀ c ∈ digits, c.isDigit = true) (hs : (kind, suffix) ∈ numberSuffixes) :
      IsLiteral (digits ++ suffix) kind digits

/-- What is read as a literal: the literals, and numbers with a base and a plus sign. -/
inductive Accepted : List Char → LiteralKind → List Char → Prop
  | literal {text stands : List Char} {kind : LiteralKind} (h : IsLiteral text kind stands) :
      Accepted text kind stands
  | plus {base n : Nat} {sign : Char} {digits : List Char} (hsign : (base, sign) ∈ baseSigns)
      (h : Spells base digits n) (hn : n < UInt64.size) :
      Accepted ('0' :: sign :: '+' :: digits) .int n.repr.toList

def HasBase (text : List Char) : Prop :=
  ∃ base sign digits, (base, sign) ∈ baseSigns ∧ text = '0' :: sign :: digits

/-! ### Numbers with a base -/

theorem mem_bases {sign : Char} (h : (base, sign) ∈ baseSigns) : base ∈ [16, 2] := by
  have hsigns : ∀ p ∈ baseSigns, p.1 ∈ [16, 2] := by decide
  exact hsigns _ h

/-- Digits that follow each other as characters follow each other in value. -/
theorem toLower_of_between (first count lowest : Nat)
    (hdigits : ∀ k < count, (Char.ofNat (first + k)).toLower = Nat.digitChar (k + lowest))
    (hlow : first ≤ c.toNat) (hhigh : c.toNat < first + count) :
    c.toLower = Nat.digitChar (c.toNat - first + lowest) := by
  have hdigit := hdigits (c.toNat - first) (by omega)
  rwa [Nat.add_sub_cancel' hlow, Char.ofNat_toNat] at hdigit

private theorem toLower_of_digitValue? (h : digitValue? base c = some value) :
    value < base ∧ c.toLower = Nat.digitChar value := by
  unfold digitValue? at h
  obtain ⟨hvalue, hlt⟩ := Option.filter_eq_some_iff.1 h
  refine ⟨of_decide_eq_true hlt, ?_⟩
  split_ifs at hvalue with hdigit hsmall hcapital
  · obtain rfl := Option.some.inj hvalue
    have hnat := Identifier.toNat_of_isDigit hdigit
    exact toLower_of_between 48 10 0 (by decide) hnat.1 (Nat.lt_succ_of_le hnat.2)
  · obtain rfl := Option.some.inj hvalue
    exact toLower_of_between 97 6 10 (by decide) hsmall.1 (Nat.lt_succ_of_le hsmall.2)
  · obtain rfl := Option.some.inj hvalue
    exact toLower_of_between 65 6 10 (by decide) hcapital.1 (Nat.lt_succ_of_le hcapital.2)

private theorem spells_iff (hbase : base ∈ [16, 2]) :
    Spells base digits n ↔ digits ≠ [] ∧ ofDigits? base digits = some n := by
  constructor
  · intro h
    induction h with
    | digit hvalue hc =>
      have hdigit := (digitValue?_of_toLower hbase hvalue hc).1
      exact ⟨List.cons_ne_nil _ _, by simp [ofDigits?, hdigit]⟩
    | more _ hvalue hc ih =>
      have hdigit := (digitValue?_of_toLower hbase hvalue hc).1
      refine ⟨by simp, ?_⟩
      rw [ofDigits?_append_singleton, ih.2, hdigit]
      rfl
  · rintro ⟨hne, h⟩
    induction digits using List.reverseRecOn generalizing n with
    | nil => exact absurd rfl hne
    | append_singleton front c ih =>
      rw [ofDigits?_append_singleton] at h
      obtain ⟨m, hfront, hlast⟩ := Option.bind_eq_some_iff.1 h
      obtain ⟨value, hvalue, rfl⟩ := Option.map_eq_some_iff.1 hlast
      obtain ⟨hlt, hlower⟩ := toLower_of_digitValue? hvalue
      by_cases hempty : front = []
      · -- The only digit: nothing stands before it.
        subst hempty
        obtain rfl : 0 = m := Option.some.inj hfront
        rw [Nat.mul_zero, Nat.zero_add]
        exact .digit hlt hlower
      · exact .more (ih hempty hfront) hlt hlower

theorem Spells.plus_notMem (hbase : base ∈ [16, 2]) (h : Spells base digits n) :
    '+' ∉ digits := by
  have hplus : ∀ base ∈ [16, 2], ∀ value < base, '+' ≠ Nat.digitChar value := by decide
  induction h with
  | digit hvalue hc =>
    rw [List.mem_singleton]
    rintro rfl
    exact hplus base hbase _ hvalue hc
  | more _ hvalue hc ih =>
    rw [List.mem_append, List.mem_singleton, not_or]
    refine ⟨ih, ?_⟩
    rintro rfl
    exact hplus base hbase _ hvalue hc

theorem digits_eq_some_iff (hbase : base ∈ [16, 2]) :
    (if digits.isEmpty then none else (ofDigits? base digits).filter (· < integerBound)) =
      some n ↔ Spells base digits n ∧ n < UInt64.size := by
  rw [spells_iff hbase]
  cases digits with
  | nil => simp
  | cons c digits =>
    have hne : c :: digits ≠ [] := List.cons_ne_nil c digits
    rw [List.isEmpty_cons, if_neg Bool.false_ne_true, Option.filter_eq_some_iff,
      decide_eq_true_iff, and_iff_right hne]
    exact Iff.rfl

theorem integer?_plus (hbase : base ∈ [16, 2]) (digits : List Char) :
    integer? base ('+' :: digits) = some n ↔ Spells base digits n ∧ n < UInt64.size :=
  digits_eq_some_iff hbase

theorem integer?_unsigned (hbase : base ∈ [16, 2]) (hplus : ∀ rest, digits ≠ '+' :: rest) :
    integer? base digits = some n ↔ Spells base digits n ∧ n < UInt64.size := by
  unfold integer?
  split
  · next rest => exact absurd rfl (hplus rest)
  · exact digits_eq_some_iff hbase

private theorem Spells.integer? (hbase : base ∈ [16, 2]) (h : Spells base digits n)
    (hn : n < UInt64.size) : integer? base digits = some n := by
  apply (integer?_unsigned hbase _).2 ⟨h, hn⟩
  rintro rest rfl
  exact h.plus_notMem hbase List.mem_cons_self

theorem based?_eq_some_iff :
    based? text = some (base, digits) ↔
      ∃ sign, (base, sign) ∈ baseSigns ∧ text = '0' :: sign :: digits := by
  constructor
  · intro h
    unfold based? at h
    split at h
    · cases h
      exact ⟨'x', by decide, rfl⟩
    · cases h
      exact ⟨'X', by decide, rfl⟩
    · cases h
      exact ⟨'b', by decide, rfl⟩
    · cases h
      exact ⟨'B', by decide, rfl⟩
    · cases h
  · rintro ⟨sign, hsign, rfl⟩
    exact based?_eq_some hsign digits

private theorem isSome_based?_iff : (based? text).isSome ↔ HasBase text := by
  rw [Option.isSome_iff_exists]
  constructor
  · rintro ⟨⟨base, digits⟩, h⟩
    obtain ⟨sign, hsign, htext⟩ := based?_eq_some_iff.1 h
    exact ⟨base, sign, digits, hsign, htext⟩
  · rintro ⟨base, sign, digits, hsign, htext⟩
    exact ⟨(base, digits), based?_eq_some_iff.2 ⟨sign, hsign, htext⟩⟩

/-! ### Decimal numbers -/

/-- The suffix that the reader takes off is the one that tells the kind. -/
theorem exists_suffix (text : List Char) :
    ∃ suffix, ((suffixed text).1, suffix) ∈ numberSuffixes ∧
      text = (suffixed text).2 ++ suffix := by
  have hlast : ∀ c, text.getLast? = some c → text = text.dropLast ++ [c] := by
    intro c hc
    exact (List.dropLast_append_getLast? c hc).symm
  unfold suffixed
  split
  · next h => exact ⟨['f'], by simp [numberSuffixes], hlast 'f' h⟩
  · next h => exact ⟨['F'], by simp [numberSuffixes], hlast 'F' h⟩
  · next h => exact ⟨['d'], by simp [numberSuffixes], hlast 'd' h⟩
  · next h => exact ⟨['D'], by simp [numberSuffixes], hlast 'D' h⟩
  · exact ⟨[], by simp [numberSuffixes], (List.append_nil text).symm⟩

private theorem suffixed_append (hd : ∀ c ∈ digits, c.isDigit = true) {suffix : List Char}
    (hs : (kind, suffix) ∈ numberSuffixes) : suffixed (digits ++ suffix) = (kind, digits) := by
  simp only [numberSuffixes, List.mem_cons, Prod.mk.injEq, List.not_mem_nil, or_false] at hs
  rcases hs with ⟨rfl, rfl⟩ | ⟨rfl, rfl⟩ | ⟨rfl, rfl⟩ | ⟨rfl, rfl⟩ | ⟨rfl, rfl⟩
  · rw [List.append_nil]
    exact suffixed_of_isDigit hd
  · exact suffixed_float digits
  · simp [suffixed]
  · exact suffixed_double digits
  · simp [suffixed]

/-! ### Reading -/

/-- What the reader of integers takes is made of digits, or of a plus sign and digits. -/
theorem accepted_of_integer? {sign : Char} (hsign : (base, sign) ∈ baseSigns)
    (h : integer? base digits = some n) :
    Accepted ('0' :: sign :: digits) .int n.repr.toList := by
  have hbase := mem_bases hsign
  by_cases hplus : ∃ rest, digits = '+' :: rest
  · obtain ⟨rest, rfl⟩ := hplus
    obtain ⟨hspells, hn⟩ := (integer?_plus hbase rest).1 h
    exact .plus hsign hspells hn
  · rw [not_exists] at hplus
    obtain ⟨hspells, hn⟩ := (integer?_unsigned hbase hplus).1 h
    exact .literal (.based hsign hspells hn)

private theorem accepted_of_number {value text : String} (h : number value = .ok (kind, text)) :
    Accepted value.toList kind text.toList := by
  rcases number_eq_ok_cases h with
    ⟨base, digits, n, hbased, hinteger, rfl, rfl⟩ | ⟨digits, hkind, hne, hd, rfl⟩
  · obtain ⟨sign, hsign, hvalue⟩ := based?_eq_some_iff.1 hbased
    rw [hvalue]
    exact accepted_of_integer? hsign hinteger
  · obtain ⟨suffix, hsuffix, hvalue⟩ := exists_suffix value.toList
    rw [hkind] at hsuffix hvalue
    rw [hvalue, String.toList_ofList]
    exact .literal (.decimal hne hd hsuffix)

private theorem accepted_of_read {value text : String} (h : read value = .ok (kind, text)) :
    Accepted value.toList kind text.toList := by
  unfold read at h
  split at h
  · cases h
  · next c rest hvalue =>
    split_ifs at h with hquote hdigit
    · cases h
      rw [hvalue, String.toList_ofList]
      exact .literal (.string (isQuote_iff.2 hquote))
    · exact accepted_of_number h
    · split at h
      · next hword =>
        cases h
        obtain rfl : "true" = value := Keyword.ofText?_eq_some_iff.1 hword
        exact .literal (.boolean (.inl rfl))
      · next hword =>
        cases h
        obtain rfl : "false" = value := Keyword.ofText?_eq_some_iff.1 hword
        exact .literal (.boolean (.inr rfl))
      · next hword =>
        cases h
        obtain rfl : "null" = value := Keyword.ofText?_eq_some_iff.1 hword
        exact .literal .null
      · cases h

theorem read_based {sign : Char} (hsign : (base, sign) ∈ baseSigns)
    (hinteger : integer? base text = some n) :
    read (String.ofList ('0' :: sign :: text)) = .ok (.int, n.repr) := by
  have hread : read (String.ofList ('0' :: sign :: text)) = number _ :=
    read_of_isDigit rfl String.toList_ofList
  rw [hread, number, String.toList_ofList, based?_eq_some hsign]
  simp only [hinteger]

private theorem IsLiteral.read {stands : List Char} (h : IsLiteral text kind stands) :
    read (String.ofList text) = .ok (kind, String.ofList stands) := by
  cases h with
  | string hq => exact read_of_quote hq String.toList_ofList
  | boolean hword =>
    rw [String.ofList_toList]
    rcases hword with rfl | rfl
    · rfl
    · rfl
  | null => rfl
  | based hsign hspells hn =>
    rw [String.ofList_toList]
    exact read_based hsign (hspells.integer? (mem_bases hsign) hn)
  | decimal hne hd hs =>
    have hsuffixes : ∀ p ∈ numberSuffixes, p.2.all (· ∉ ['x', 'X', 'b', 'B']) = true := by decide
    exact read_digits hne hd (hsuffixes _ hs) (suffixed_append hd hs)

theorem Accepted.read {stands : List Char} (h : Accepted text kind stands) :
    read (String.ofList text) = .ok (kind, String.ofList stands) := by
  cases h with
  | literal h => exact h.read
  | plus hsign hspells hn =>
    rw [String.ofList_toList]
    exact read_based hsign ((integer?_plus (mem_bases hsign) _).2 ⟨hspells, hn⟩)

private theorem read_eq_ok_iff {value text : String} :
    read value = .ok (kind, text) ↔ Accepted value.toList kind text.toList := by
  refine ⟨accepted_of_read, fun h => ?_⟩
  have hread := h.read
  rwa [String.ofList_toList, String.ofList_toList] at hread

/-! ### Refusing -/

private theorem not_hasBase_of_not_isDigit {value : String} {rest : List Char}
    (hc : ¬c.isDigit = true) (h : value.toList = c :: rest) : ¬HasBase value.toList := by
  rintro ⟨base, sign, digits, -, hbased⟩
  obtain rfl := (List.cons.inj (h.symm.trans hbased)).1
  exact hc rfl

private theorem error_of_read {value : String} {error : SyntaxError}
    (h : read value = .error error) : HasBase value.toList ∧ error = .invalidNumber value ∨
      ¬HasBase value.toList ∧ error = .unknownLiteral value := by
  unfold read at h
  split at h
  · next hvalue =>
    cases h
    right
    refine ⟨?_, rfl⟩
    rintro ⟨base, sign, digits, -, hbased⟩
    cases hvalue.symm.trans hbased
  · next c rest hvalue =>
    split_ifs at h with hquote hdigit
    · rw [← isSome_based?_iff]
      rcases number_eq_error_cases h with hbased | ⟨hbased, herror⟩
      · exact .inl hbased
      · right
        rw [hbased]
        exact ⟨Bool.false_ne_true, herror⟩
    · right
      refine ⟨not_hasBase_of_not_isDigit hdigit hvalue, ?_⟩
      split at h
      · cases h
      · cases h
      · cases h
      · cases h
        rfl

private theorem ofToken_eq_ok_iff {token : Token} {l : Literal} :
    ofToken token = .ok l ↔
      read token.value = .ok (l.kind, l.text) ∧ l.position = token.position := by
  unfold ofToken
  split
  · next kind text hread =>
    obtain ⟨lkind, ltext, lposition⟩ := l
    simp only [hread, Except.ok.injEq, Literal.mk.injEq, Prod.mk.injEq, eq_comm, and_assoc]
  · next hread => simp [hread]

private theorem ofToken_eq_error_iff {token : Token} {error : SyntaxError} :
    ofToken token = .error error ↔ read token.value = .error error := by
  unfold ofToken
  split
  · next hread => simp [hread]
  · next hread => simp [hread]

/-- A token is read as a literal if it is one, or would be one without a plus sign in front of the
digits of its base, and then it has this kind, this text and the position of the token. Every other
token is refused as a whole, as a number if it begins with the sign for a base and as no literal if
not. -/
theorem literals_accepted (token : Token) :
    (∀ l, ofToken token = .ok l ↔
      Accepted token.value.toList l.kind l.text.toList ∧ l.position = token.position) ∧
      ∀ error, ofToken token = .error error ↔
        (∀ kind stands, ¬Accepted token.value.toList kind stands) ∧
          (HasBase token.value.toList ∧ error = .invalidNumber token.value ∨
            ¬HasBase token.value.toList ∧ error = .unknownLiteral token.value) := by
  constructor
  · intro l
    rw [ofToken_eq_ok_iff, read_eq_ok_iff]
  intro error
  rw [ofToken_eq_error_iff]
  constructor
  · intro h
    refine ⟨fun kind stands haccepted => ?_, error_of_read h⟩
    have hread := haccepted.read
    rw [String.ofList_toList, h] at hread
    cases hread
  · rintro ⟨hrefused, herror⟩
    cases hread : read token.value with
    | ok pair => exact absurd (read_eq_ok_iff.1 hread) (hrefused pair.1 pair.2.toList)
    | error fault =>
      -- The beginning of the token decides which of the two errors it is.
      have hfault := error_of_read hread
      by_cases hbase : HasBase token.value.toList
      · simp only [hbase, true_and, not_true, false_and, or_false] at hfault herror
        rw [hfault, herror]
      · simp only [hbase, not_false_eq_true, true_and, false_and, false_or] at hfault herror
        rw [hfault, herror]

/-- A plus sign behind the sign for a base is passed over, although such a text is no literal. -/
theorem plus_accepted :
    ofToken ⟨{}, "0x+1"⟩ = .ok ⟨.int, "1", {}⟩ ∧
      ∀ kind stands, ¬IsLiteral "0x+1".toList kind stands := by
  refine ⟨by decide +kernel, fun kind stands h => ?_⟩
  generalize htext : "0x+1".toList = text at h
  have hplus : '+' ∈ text := htext ▸ by decide
  cases h with
  | string hq =>
    obtain rfl := (List.cons.inj htext).1
    cases hq
  | boolean hword =>
    rcases hword with rfl | rfl
    · exact absurd hplus (by decide)
    · exact absurd hplus (by decide)
  | null => exact absurd hplus (by decide)
  | based hsign hspells hn =>
    have hrest := (List.cons.inj (List.cons.inj htext).2).2
    exact hspells.plus_notMem (mem_bases hsign) (hrest ▸ List.mem_cons_self)
  | decimal hne hd hs =>
    have hsuffixes : ∀ p ∈ numberSuffixes, '+' ∉ p.2 := by decide
    rcases List.mem_append.1 hplus with hdigit | hsuffix
    · exact absurd (hd '+' hdigit) (by decide)
    · exact hsuffixes _ hs hsuffix

end Script.Literal
