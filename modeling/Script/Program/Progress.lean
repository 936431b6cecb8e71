import Script.Parser.Recursion
import Script.Program
/-!
# Reading a program goes on to its end

Every element and every recovery takes a token. So the bound on the number of elements is never
felt, and a program is read element by element until no token is left.
-/

namespace Script

open Script.Parser

theorem length_resume_lt {c : Cursor} (hc : 0 < c.rest.length) :
    (resume c).rest.length < c.rest.length :=
  length_advance_lt (skippedLength_pos 0 (List.ne_nil_of_length_pos hc)) hc

/-- A bound by which the tokens can be read may be any other. -/
theorem readElements_eq (rules : List Rule) (recover : Bool) (m n : Nat) (c : Cursor)
    (hm : c.rest.length ≤ m) (hn : c.rest.length ≤ n) :
    readElements rules recover m c = readElements rules recover n c := by
  induction m generalizing n c with
  | zero =>
    have hc : c.rest = [] := List.eq_nil_of_length_eq_zero (Nat.le_zero.1 hm)
    cases n <;> simp [readElements, hc]
  | succ m ih =>
    cases n with
    | zero =>
      have hc : c.rest = [] := List.eq_nil_of_length_eq_zero (Nat.le_zero.1 hn)
      simp [readElements, hc]
    | succ n =>
      rw [readElements, readElements]
      split
      · rfl
      · next hne =>
        have hc : 0 < c.rest.length := by
          cases h : c.rest with
          | nil => simp [h] at hne
          | cons => simp
        split
        · next element? d he =>
          have := advances_element rules _ _ _ hc he
          rw [ih n d (by omega) (by omega)]
        · have := length_resume_lt hc
          rw [ih n (resume c) (by omega) (by omega)]

def readFrom (rules : List Rule) (recover : Bool) (c : Cursor) : Outcome :=
  readElements rules recover c.rest.length c

theorem readProgram_eq_readFrom (rules : List Rule) (recover : Bool) (tokens : List Token) :
    readProgram rules recover tokens = readFrom rules recover (.start tokens) := rfl

theorem readFrom_nil {rules : List Rule} {recover : Bool} {c : Cursor} (h : c.rest = []) :
    readFrom rules recover c = {} := by
  simp [readFrom, h, readElements]

theorem readFrom_of_ok {rules : List Rule} {recover : Bool} {c d : Cursor}
    {element? : Option Element} (hc : 0 < c.rest.length)
    (h : (element rules).run c = .ok (element?, d)) :
    readFrom rules recover c = (readFrom rules recover d).withElement element? := by
  have hlt := advances_element rules _ _ _ hc h
  have hne : c.rest.isEmpty = false := by
    cases hr : c.rest with
    | nil => simp [hr] at hc
    | cons => rfl
  rw [readFrom, readElements_eq rules recover _ (c.rest.length + 1) c (by omega) (by omega),
    readElements, hne, h]
  simp only [Bool.false_eq_true, if_false]
  rw [readElements_eq rules recover _ d.rest.length d (by omega) (by omega), readFrom]

theorem readFrom_of_error {rules : List Rule} {recover : Bool} {c : Cursor} {fault : Fault}
    (hc : 0 < c.rest.length) (h : (element rules).run c = .error fault) :
    readFrom rules recover c =
      if recover then (readFrom rules recover (resume c)).withNoted fault
      else { fatal? := some fault } := by
  have hlt := length_resume_lt hc
  have hne : c.rest.isEmpty = false := by
    cases hr : c.rest with
    | nil => simp [hr] at hc
    | cons => rfl
  rw [readFrom, readElements_eq rules recover _ (c.rest.length + 1) c (by omega) (by omega),
    readElements, hne, h]
  simp only [Bool.false_eq_true, if_false]
  split
  · rw [readElements_eq rules recover _ (resume c).rest.length (resume c) (by omega) (by omega),
      readFrom]
  · rfl

/-- Something that is known of the program that is read is known of some program. -/
theorem Settings.exists_parse_of_map_eq {settings : Settings} {tokens : List Token}
    {source : String} {β : Type} {f : Parsed → β} {b : β}
    (h : (settings.parse tokens source).toOption.map f = some b) :
    ∃ parsed, settings.parse tokens source = .ok parsed ∧ f parsed = b := by
  cases hparse : settings.parse tokens source with
  | error error =>
    rw [hparse] at h
    cases h
  | ok parsed =>
    rw [hparse] at h
    exact ⟨parsed, rfl, Option.some.inj h⟩

end Script
