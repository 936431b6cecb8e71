import Script.Program
/-!
# Reading with and without recovery

The two ways to read a program differ only behind the first error. Until then they have the same
elements; there the one ends and the other takes note. So what was read before the error is a
beginning of what is read in the end, and the error is the first one noted.
-/

namespace Script

open Script.Parser

/-- How an outcome without recovery goes with one with recovery. -/
structure Outcome.Agrees (fatal recovering : Outcome) : Prop where
  noted_eq : fatal.noted = []
  fatal_eq : recovering.fatal? = none
  /-- The error that ends the one is the first that the other notes. -/
  first_eq : fatal.fatal? = recovering.noted.head?
  /-- What is read before the error is read either way. -/
  elements_prefix : fatal.elements <+: recovering.elements
  elements_eq : fatal.fatal? = none → fatal.elements = recovering.elements

namespace Outcome.Agrees

private theorem empty : Agrees {} {} := ⟨rfl, rfl, rfl, List.prefix_rfl, fun _ => rfl⟩

private theorem withElement {f r : Outcome} (h : f.Agrees r) (element? : Option Element) :
    (f.withElement element?).Agrees (r.withElement element?) where
  noted_eq := h.noted_eq
  fatal_eq := h.fatal_eq
  first_eq := h.first_eq
  elements_prefix := (List.prefix_append_right_inj element?.toList).2 h.elements_prefix
  elements_eq hf := congrArg (element?.toList ++ ·) (h.elements_eq hf)

/-- An error that ends the one is noted by the other, whatever comes behind it. -/
theorem of_fault {r : Outcome} (fault : Fault) (hr : r.fatal? = none) :
    Agrees { fatal? := some fault } (r.withNoted fault) where
  noted_eq := rfl
  fatal_eq := hr
  first_eq := rfl
  elements_prefix := List.nil_prefix
  elements_eq hf := by cases hf

private theorem fatal_eq_none_iff {f r : Outcome} (h : f.Agrees r) :
    f.fatal? = none ↔ r.noted = [] := by
  rw [h.first_eq, List.head?_eq_none_iff]

end Outcome.Agrees

theorem fatal?_readElements_recover (rules : List Rule) (n : Nat) (c : Cursor) :
    (readElements rules true n c).fatal? = none := by
  induction n generalizing c with
  | zero => rfl
  | succ n ih =>
    rw [readElements]
    split
    · rfl
    · cases (element rules).run c with
      | ok r => exact ih r.2
      | error fault => exact ih (resume c)

/-- Both ways of reading go through the same cursors until the first error. -/
theorem readElements_agrees (rules : List Rule) (n : Nat) (c : Cursor) :
    (readElements rules false n c).Agrees (readElements rules true n c) := by
  induction n generalizing c with
  | zero => exact .empty
  | succ n ih =>
    rw [readElements, readElements]
    split
    · exact .empty
    · cases (element rules).run c with
      | ok r => exact (ih r.2).withElement r.1
      | error fault => exact .of_fault fault (fatal?_readElements_recover rules n (resume c))

theorem readProgram_agrees (rules : List Rule) (tokens : List Token) :
    (readProgram rules false tokens).Agrees (readProgram rules true tokens) :=
  readElements_agrees rules tokens.length (.start tokens)

namespace Settings

variable {settings : Settings} {tokens : List Token} {source : String}

/-- A program is read if no error ends the reading. -/
theorem parse_eq_ok_iff {parsed : Parsed} :
    settings.parse tokens source = .ok parsed ↔
      (readProgram settings.rules settings.recover tokens).fatal? = none ∧
        parsed = ⟨⟨settings.file,
            (readProgram settings.rules settings.recover tokens).elements⟩,
          (readProgram settings.rules settings.recover tokens).noted.map
            (settings.diagnose source)⟩ := by
  rw [parse]
  cases (readProgram settings.rules settings.recover tokens).fatal? with
  | none => simp [eq_comm]
  | some fault => simp

theorem parse_eq_error_iff {error : Diagnostic SyntaxError} :
    settings.parse tokens source = .error error ↔
      ∃ fault, (readProgram settings.rules settings.recover tokens).fatal? = some fault ∧
        settings.diagnose source fault = error := by
  rw [parse]
  cases (readProgram settings.rules settings.recover tokens).fatal? with
  | none => simp
  | some fault => simp

/-- Reading without recovery gives the program that recovery reads without any error, or else the
first error that recovery passes over, and up to there both read the same elements. -/
theorem parse_agrees (file : Option String) (verbose : Bool) (rules : List Rule)
    (tokens : List Token) (source : String) :
    let fatal := parse { file, verbose, rules, recover := false } tokens source
    let recovering := parse { file, verbose, rules, recover := true } tokens source
    (∀ parsed, fatal = .ok parsed ↔ recovering = .ok parsed ∧ parsed.errors = []) ∧
      (∀ error, fatal = .error error ↔
        ∃ parsed, recovering = .ok parsed ∧ parsed.errors.head? = some error) ∧
      ∀ error parsed, fatal = .error error → recovering = .ok parsed →
        (readProgram rules false tokens).elements <+: parsed.root.elements := by
  intro fatal recovering
  have h := readProgram_agrees rules tokens
  refine ⟨fun parsed => ?_, fun error => ?_, fun error parsed _ hrecovering => ?_⟩
  · rw [parse_eq_ok_iff, parse_eq_ok_iff]
    simp only
    rw [h.fatal_eq_none_iff]
    constructor
    · rintro ⟨hnoted, rfl⟩
      have helements := h.elements_eq (h.fatal_eq_none_iff.2 hnoted)
      rw [h.noted_eq, hnoted, helements]
      exact ⟨⟨h.fatal_eq, rfl⟩, rfl⟩
    · rintro ⟨⟨-, rfl⟩, hnoted⟩
      have hnoted := List.map_eq_nil_iff.1 hnoted
      have helements := h.elements_eq (h.fatal_eq_none_iff.2 hnoted)
      rw [h.noted_eq, hnoted, helements]
      exact ⟨rfl, rfl⟩
  · rw [parse_eq_error_iff]
    constructor
    · rintro ⟨fault, hfault, rfl⟩
      refine ⟨_, parse_eq_ok_iff.2 ⟨h.fatal_eq, rfl⟩, ?_⟩
      rw [List.head?_map, ← h.first_eq, hfault]
      rfl
    · rintro ⟨parsed, hparsed, herror⟩
      obtain ⟨-, rfl⟩ := parse_eq_ok_iff.1 hparsed
      rw [List.head?_map, Option.map_eq_some_iff] at herror
      obtain ⟨fault, hfault, hdiagnose⟩ := herror
      exact ⟨fault, h.first_eq.trans hfault, hdiagnose⟩
  · obtain ⟨-, rfl⟩ := parse_eq_ok_iff.1 hrecovering
    exact h.elements_prefix

end Settings

end Script
