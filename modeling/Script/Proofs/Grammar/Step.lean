import Script.Proofs.Parser.Passing
import Script.Proofs.Grammar.Words
/-!
# The rule for counting

The one rule there is from the start claims exactly the tokens that spell a step, whether it is
asked for any element or for a value only.
-/

namespace Script.Grammar

open Script.Parser

theorem isStepOperator_iff {token : Token} :
    Rule.isStepOperator token = true ↔ token.value = "++" ∨ token.value = "--" := by
  simp [Rule.isStepOperator]

theorem Word.isStepOperator {token : Token} (h : Word token) :
    Rule.isStepOperator token = false := by
  rw [← Bool.not_eq_true, isStepOperator_iff, not_or]
  exact ⟨h.ne (by decide), h.ne (by decide)⟩

theorem Step.length_eq {ts : List Token} {v : Value} (h : Step ts v) : ts.length = 3 := by
  cases h <;> rfl

theorem Step.exists_semicolon {ts : List Token} {v : Value} (h : Step ts v) :
    ∃ init semicolon, ts = init ++ [semicolon] ∧ semicolon.value = ";" := by
  cases h with
  | before _ _ he => exact ⟨[_, _], _, rfl, he⟩
  | behind _ _ he => exact ⟨[_, _], _, rfl, he⟩

theorem Step.stepApplies {ts : List Token} {v : Value} (h : Step ts v) (rest : List Token) :
    Rule.stepApplies (ts ++ rest) = true := by
  cases h with
  | before hs hn he =>
    simp only [List.cons_append, List.nil_append, Rule.stepApplies, isStepOperator_iff.2 hs,
      hn.isStepOperator, Token.is_iff.2 he, Bool.true_and]
    exact hn
  | behind hn hs he =>
    simp only [List.cons_append, List.nil_append, Rule.stepApplies, isStepOperator_iff.2 hs,
      hn.isStepOperator, Token.is_iff.2 he, Bool.true_and]
    exact hn

private theorem Word.fault?_eq_none {token : Token} (h : Word token) :
    Identifier.fault? token.value = none := by
  simpa [Word, Identifier.isValid] using h

/-- The rule names the operation of a sign as the grammar does. -/
theorem stepName_before {sign : String} (h : sign = "++" ∨ sign = "--") :
    Rule.stepName sign true = if sign = "++" then "preincrement" else "predecrement" := by
  rcases h with rfl | rfl <;> rfl

private theorem stepName_behind {sign : String} (h : sign = "++" ∨ sign = "--") :
    Rule.stepName sign false = if sign = "++" then "postincrement" else "postdecrement" := by
  rcases h with rfl | rfl <;> rfl

private theorem Step.stepParse {ts : List Token} {v : Value} (h : Step ts v) (rest : List Token) :
    Rule.stepParse (ts ++ rest) = .ok (.value v, 3) := by
  cases h with
  | before hs hn he =>
    simp [Rule.stepParse, isStepOperator_iff.2 hs, hn.fault?_eq_none, Window.position,
      stepName_before hs]
  | behind hn hs he =>
    simp [Rule.stepParse, hn.isStepOperator, hn.fault?_eq_none, Window.position,
      stepName_behind hs]

/-- Where the rule applies, a step is written. -/
theorem exists_step_of_stepApplies {window : Window} (h : Rule.stepApplies window = true) :
    ∃ ts v rest, window = ts ++ rest ∧ Step ts v := by
  unfold Rule.stepApplies at h
  split at h
  · next a b c rest =>
    rw [Bool.and_eq_true, Token.is_iff] at h
    obtain ⟨hc, h⟩ := h
    split at h
    · next ha hb =>
      exact ⟨[a, b, c], _, rest, rfl, .before (isStepOperator_iff.1 ha) h hc⟩
    · next ha hb =>
      exact ⟨[a, b, c], _, rest, rfl, .behind h (isStepOperator_iff.1 hb) hc⟩
    · cases h
  · cases h

theorem head_of_stepApplies {first : Token} {window : Window}
    (h : Rule.stepApplies (first :: window) = true) :
    ∃ second, window.head? = some second ∧
      ((first.value = "++" ∨ first.value = "--") ∧ Word second ∨
        Word first ∧ (second.value = "++" ∨ second.value = "--")) := by
  obtain ⟨ts, v, rest, he, hs⟩ := exists_step_of_stepApplies h
  cases hs with
  | before hs hn _ =>
    obtain ⟨rfl, rfl⟩ := List.cons.inj he
    exact ⟨_, rfl, .inl ⟨hs, hn⟩⟩
  | behind hn hs _ =>
    obtain ⟨rfl, rfl⟩ := List.cons.inj he
    exact ⟨_, rfl, .inr ⟨hn, hs⟩⟩

def Foreign (token : Token) : Prop :=
  token.value ∈ signs ∧ token.value ≠ "++" ∧ token.value ≠ "--"

theorem stepApplies_of_head {token : Token} {rest : List Token} (h : Foreign token) :
    Rule.stepApplies (token :: rest) = false := by
  rw [← Bool.not_eq_true]
  intro ha
  obtain ⟨second, -, ⟨hs, -⟩ | ⟨hw, -⟩⟩ := head_of_stepApplies ha
  · exact hs.elim h.2.1 h.2.2
  · exact hw.notMem_signs h.1

theorem stepApplies_of_second {token sign : Token} {rest : List Token} (h : Foreign sign) :
    Rule.stepApplies (token :: sign :: rest) = false := by
  rw [← Bool.not_eq_true]
  intro ha
  obtain ⟨second, hsecond, hcases⟩ := head_of_stepApplies ha
  obtain rfl : sign = second := by simpa using hsecond
  rcases hcases with ⟨-, hw⟩ | ⟨-, hs⟩
  · exact hw.notMem_signs h.1
  · exact hs.elim h.2.1 h.2.2

theorem stepApplies_of_word {token second : Token} {rest : List Token} (h : Word token)
    (h' : second.value ∉ signs) : Rule.stepApplies (token :: second :: rest) = false := by
  rw [← Bool.not_eq_true]
  intro ha
  obtain ⟨_, hsecond, hcases⟩ := head_of_stepApplies ha
  obtain rfl := Option.some.inj hsecond
  rcases hcases with ⟨hs, -⟩ | ⟨-, hs⟩
  · exact hs.elim (h.ne (by decide)) (h.ne (by decide))
  · exact hs.elim (ne_of_notMem_signs h' (by decide)) (ne_of_notMem_signs h' (by decide))

theorem stepApplies_of_third {first second third : Token} {rest : List Token}
    (h : third.value ≠ ";") : Rule.stepApplies (first :: second :: third :: rest) = false := by
  rw [← Bool.not_eq_true]
  intro ha
  obtain ⟨ts, v, rest', he, hs⟩ := exists_step_of_stepApplies ha
  cases hs with
  | before _ _ hsemicolon | behind _ _ hsemicolon =>
    obtain ⟨-, he⟩ := List.cons.inj he
    obtain ⟨-, he⟩ := List.cons.inj he
    exact h ((List.cons.inj he).1 ▸ hsemicolon)

theorem first?_defaults (valuesOnly : Bool) (window : Window) :
    Rule.first? Rule.defaults valuesOnly window =
      if Rule.stepApplies window then some Rule.step else none := by
  simp only [Rule.first?, Rule.defaults, List.find?_cons, List.find?_nil, Rule.step, Bool.true_or,
    Bool.true_and]
  cases Rule.stepApplies window <;> rfl

/-- Where no step is written, no rule reads anything. -/
theorem run_byRule_of_not {valuesOnly : Bool} {c : Cursor}
    (h : Rule.stepApplies c.rest = false) :
    (byRule Rule.defaults valuesOnly).run c = .ok (none, c) := by
  rw [byRule, run_bind_of_ok _ (run_upcoming c), first?_defaults, h]
  rfl

theorem Step.reads {ts : List Token} {v : Value} (h : Step ts v) (valuesOnly : Bool) :
    Reads Any (byRule Rule.defaults valuesOnly) ts (some (.value v)) := by
  intro c d hd _
  have hparse : Rule.step.parse (ts ++ d.rest) = .ok (.value v, 3) := h.stepParse d.rest
  have hlength : min (max 3 1) (ts ++ d.rest).length = ts.length := by
    rw [List.length_append, h.length_eq]
    omega
  rw [byRule, run_bind_of_ok _ (run_upcoming c), hd.rest_eq, first?_defaults, h.stepApplies]
  simp only [if_true]
  rw [run_bind, run_ofExcept, hparse]
  simp only [Except.map, hlength]
  rw [hd.eq_advance]
  rfl

theorem byRule_defaults_cases {valuesOnly : Bool} {c d : Cursor} {element? : Option Element}
    (h : (byRule Rule.defaults valuesOnly).run c = .ok (element?, d)) :
    (element? = none ∧ d = c ∧ Rule.stepApplies c.rest = false) ∨
      ∃ ts v, c.Passes ts d ∧ Step ts v ∧ element? = some (.value v) := by
  cases ha : Rule.stepApplies c.rest with
  | false =>
    rw [run_byRule_of_not ha] at h
    cases h
    exact .inl ⟨rfl, rfl, rfl⟩
  | true =>
    obtain ⟨ts, v, rest, hrest, hs⟩ := exists_step_of_stepApplies ha
    have hd := Cursor.passes_advance hrest
    rw [hs.reads valuesOnly c _ hd trivial] at h
    cases h
    exact .inr ⟨ts, v, hd, hs, rfl⟩

end Script.Grammar
