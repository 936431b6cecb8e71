import Script.Proofs.Grammar.Failing
import Script.Proofs.Lexer.Cut
import Script.Proofs.Recovery.Gathered
/-!
# Errors in the order of the source

An error lies within the statement that it is about, and where the statement is skipped, everything
up to the error is. So errors that are passed over come in the order in which they stand. This fails
where a step stands inside of parentheses: its semicolon ends the statement for recovery, while the
parser goes on with the arguments, and may find an error behind.
-/

namespace Script

open Script.Parser Script.Grammar

/-! ### Positions of cursors -/

private theorem Parser.Cursor.position_le_advance_one {c : Cursor}
    (h : c.rest.Pairwise Token.Before) : c.position ≤ (c.advance 1).position := by
  have hlast : c.rest ≠ [] → c.tokens.getLast? = c.rest.getLast? := fun hne =>
    (getLast?_rest hne).symm
  have htokens : (c.advance 1).tokens = c.tokens := rfl
  rw [position, position, rest_advance, htokens]
  rcases hrest : c.rest with _ | ⟨token, _ | ⟨next, rest⟩⟩
  · exact Position.le_refl _
  · rw [hlast (by simp [hrest]), hrest]
    exact token.position_le_endPosition
  · rw [hrest] at h
    exact Position.le_of_lt ((List.pairwise_cons.1 h).1 next List.mem_cons_self)

theorem Parser.Cursor.position_le_advance (n : Nat) {c : Cursor}
    (h : c.rest.Pairwise Token.Before) : c.position ≤ (c.advance n).position := by
  induction n generalizing c with
  | zero => exact Position.le_refl _
  | succ n ih =>
    have hnext : (c.advance 1).rest.Pairwise Token.Before := by
      rw [rest_advance]
      exact h.drop
    rw [Nat.add_comm, ← advance_advance]
    exact Position.le_trans (position_le_advance_one h) (ih hnext)

private theorem Parser.Cursor.Reaches.position_le {c d : Cursor} (h : c.Reaches d)
    (hc : c.rest.Pairwise Token.Before) : c.position ≤ d.position := by
  obtain ⟨n, rfl⟩ := h
  exact Cursor.position_le_advance n hc

/-! ### Deciding where steps stand -/

namespace Grammar

private theorem stepInside_iff {tokens : List Token} :
    StepInside tokens ↔ ∃ i < tokens.length, Rule.stepApplies (tokens.drop i) = true ∧
      (startsWith (tokens.drop (i + 3)) ")" = true ∨
        startsWith (tokens.drop (i + 3)) "," = true) := by
  constructor
  · rintro ⟨ahead, step, v, sign, behind, rfl, hstep, hs⟩
    refine ⟨ahead.length, ?_, ?_, ?_⟩
    · simp only [List.length_append, List.length_cons]
      omega
    · simpa using hstep.stepApplies (sign :: behind)
    · rw [← List.drop_drop, List.drop_left, ← hstep.length_eq, List.drop_left]
      exact hs.imp startsWith_cons_eq_true startsWith_cons_eq_true
  · rintro ⟨i, -, hstep, hs⟩
    obtain ⟨step, v, rest, hrest, hstep⟩ := exists_step_of_stepApplies hstep
    rw [← List.drop_drop, hrest, ← hstep.length_eq, List.drop_left, startsWith_eq_true_iff,
      startsWith_eq_true_iff] at hs
    obtain ⟨sign, hhead, hparen⟩ : ∃ sign, rest.head? = some sign ∧
        (sign.value = ")" ∨ sign.value = ",") := by
      rcases hs with ⟨sign, hhead, hs⟩ | ⟨sign, hhead, hs⟩
      · exact ⟨sign, hhead, .inl hs⟩
      · exact ⟨sign, hhead, .inr hs⟩
    obtain ⟨behind, rfl⟩ := List.head?_eq_some_iff.1 hhead
    refine ⟨tokens.take i, step, v, sign, behind, ?_, hstep, hparen⟩
    rw [← hrest, List.take_append_drop]

instance (tokens : List Token) : Decidable (StepInside tokens) :=
  decidable_of_iff _ stepInside_iff.symm

end Grammar

/-! ### Errors that are passed over -/

/-- Where reading resumes, the error that was found lies behind. -/
theorem position_le_resume {c : Cursor} {fault : Fault} (hc : c.rest.Pairwise Token.Before)
    (hsteps : ¬StepInside c.rest) (h : (element Rule.defaults).run c = .error fault) :
    c.position ≤ fault.position ∧ fault.position ≤ (resume c).position := by
  obtain ⟨ts, d, hd, hunended, hblamed, -⟩ :=
    failsWithin_element c (Nat.le_refl _) fault h
  have hts : ¬StepInside ts := fun h => hsteps (hd.rest_eq ▸ h.append_right d.rest)
  have hskipped := hunended.length_le_skippedLength d.rest hts
  rw [← hd.rest_eq] at hskipped
  -- nothing before the fault could end the statement, so the tokens up to it are skipped
  obtain ⟨n, hn⟩ := Nat.exists_eq_add_of_le hskipped
  have hresume : resume c = d.advance n := by
    rw [resume, hn, ← Cursor.advance_advance, ← hd.eq_advance]
  have hbehind : d.rest.Pairwise Token.Before := by
    rw [hd.rest_eq] at hc
    exact (List.pairwise_append.1 hc).2.1
  rw [hblamed.position_eq, hresume]
  refine ⟨?_, Cursor.position_le_advance n hbehind⟩
  rw [hd.eq_advance]
  exact Cursor.position_le_advance _ hc

def SortedFrom (p : Position) (ps : List Position) : Prop := (p :: ps).Pairwise (· ≤ ·)

theorem SortedFrom.of_le {p q : Position} {ps : List Position} (h : SortedFrom q ps)
    (hpq : p ≤ q) : SortedFrom p ps := by
  obtain ⟨hq, hps⟩ := List.pairwise_cons.1 h
  exact List.pairwise_cons.2 ⟨fun r hr => Position.le_trans hpq (hq r hr), hps⟩

private theorem SortedFrom.cons {p q : Position} {ps : List Position} (h : SortedFrom q ps)
    (hpq : p ≤ q) : SortedFrom p (q :: ps) := by
  refine List.pairwise_cons.2 ⟨List.forall_mem_cons.2 ⟨hpq, ?_⟩, h⟩
  exact (List.pairwise_cons.1 (h.of_le hpq)).1

/-- Whatever is noted from a cursor on lies behind it, in order. -/
theorem sortedFrom_noted (c : Cursor) (hc : c.rest.Pairwise Token.Before)
    (hsteps : ¬StepInside c.rest) :
    SortedFrom c.position ((readFrom Rule.defaults true c).noted.map Fault.position) := by
  by_cases hpos : 0 < c.rest.length
  · cases hrun : (element Rule.defaults).run c with
    | ok r =>
      obtain ⟨element?, d⟩ := r
      have hlt := advances_element _ _ _ _ hpos hrun
      have hreaches := (element Rule.defaults).reaches hrun
      have hsuffix := hreaches.suffix
      have hbehind := sortedFrom_noted d (hc.sublist hsuffix.sublist)
        fun h => hsteps (h.of_infix hsuffix.isInfix)
      rw [readFrom_of_ok hpos hrun]
      exact hbehind.of_le (hreaches.position_le hc)
    | error fault =>
      have hlt := length_resume_lt hpos
      have hsuffix := (Cursor.reaches_advance (skippedLength 0 c.rest) c).suffix
      have hbehind := sortedFrom_noted (resume c) (hc.sublist hsuffix.sublist)
        fun h => hsteps (h.of_infix hsuffix.isInfix)
      obtain ⟨hfault, hresume⟩ := position_le_resume hc hsteps hrun
      rw [readFrom_of_error hpos hrun]
      -- what is noted later lies behind the cursor where reading resumes, and so behind the fault
      exact (hbehind.of_le hresume).cons hfault
  · rw [readFrom_nil (List.length_eq_zero_iff.1 (by omega))]
    exact List.pairwise_singleton _ _
termination_by c.rest.length

/-- Unless a step stands inside of parentheses, the errors that are passed over come in the order of
the source. -/
theorem Settings.parse_errors_sorted (file label : Option String) (verbose : Bool)
    {source : String} {tokenized : Tokenized} (htokens : tokenize source label = .ok tokenized)
    (hsteps : ¬StepInside tokenized.tokens) :
    ∃ parsed, parse { file, verbose, recover := true } tokenized.tokens source = .ok parsed ∧
      (parsed.errors.map Diagnostic.position).Pairwise (· ≤ ·) := by
  refine ⟨_, parse_eq_ok_iff.2 ⟨fatal?_readElements_recover _ _ _, rfl⟩, ?_⟩
  have hsorted := sortedFrom_noted (.start tokenized.tokens) (tokenize_before htokens) hsteps
  rw [List.map_map]
  exact hsorted.of_cons

/-- An error behind a step that does not end its call, one where reading resumes, and one in a
body. -/
theorem Settings.parse_errors_sorted_several :
    let source := "f(x++; 5);\nfunc g() void \x7b 5; \x7d"
    let tokens : List Token :=
      [⟨⟨0, 0⟩, "f"⟩, ⟨⟨0, 1⟩, "("⟩, ⟨⟨0, 2⟩, "x"⟩, ⟨⟨0, 3⟩, "++"⟩, ⟨⟨0, 5⟩, ";"⟩,
        ⟨⟨0, 7⟩, "5"⟩, ⟨⟨0, 8⟩, ")"⟩, ⟨⟨0, 9⟩, ";"⟩, ⟨⟨1, 0⟩, "func"⟩, ⟨⟨1, 5⟩, "g"⟩,
        ⟨⟨1, 6⟩, "("⟩, ⟨⟨1, 7⟩, ")"⟩, ⟨⟨1, 9⟩, "void"⟩, ⟨⟨1, 14⟩, "\x7b"⟩, ⟨⟨1, 16⟩, "5"⟩,
        ⟨⟨1, 17⟩, ";"⟩, ⟨⟨1, 19⟩, "\x7d"⟩]
    tokenize source none = .ok ⟨none, tokens⟩ ∧ ¬StepInside tokens ∧
      ∃ parsed, parse { recover := true } tokens source = .ok parsed ∧
        (parsed.errors.map Diagnostic.position).length = 3 ∧
        (parsed.errors.map Diagnostic.position).Pairwise (· ≤ ·) := by
  intro source tokens
  have htokens : tokenize source none = .ok ⟨none, tokens⟩ := by decide +kernel
  have hsteps : ¬StepInside tokens := by decide
  obtain ⟨parsed, hparse, hsorted⟩ := parse_errors_sorted none none false htokens hsteps
  have hcount : (parse { recover := true } tokens source).toOption.map (·.errors.length) =
      some 3 := by
    decide +kernel
  rw [hparse] at hcount
  refine ⟨htokens, hsteps, parsed, hparse, ?_, hsorted⟩
  rw [List.length_map]
  exact Option.some.inj hcount

/-- The call goes on behind the semicolon of its first argument, and its error is found there, while
recovery takes the statement to end with this semicolon. -/
theorem Settings.parse_errors_unsorted :
    ∃ tokenized parsed, tokenize "f(x++;, 5 5);" none = .ok tokenized ∧
      parse { recover := true } tokenized.tokens "f(x++;, 5 5);" = .ok parsed ∧
      parsed.errors.map Diagnostic.position = [⟨0, 10⟩, ⟨0, 6⟩] ∧
      ¬(parsed.errors.map Diagnostic.position).Pairwise (· ≤ ·) := by
  have htokens : tokenize "f(x++;, 5 5);" none = .ok ⟨none,
      [⟨⟨0, 0⟩, "f"⟩, ⟨⟨0, 1⟩, "("⟩, ⟨⟨0, 2⟩, "x"⟩, ⟨⟨0, 3⟩, "++"⟩, ⟨⟨0, 5⟩, ";"⟩, ⟨⟨0, 6⟩, ","⟩,
        ⟨⟨0, 8⟩, "5"⟩, ⟨⟨0, 10⟩, "5"⟩, ⟨⟨0, 11⟩, ")"⟩, ⟨⟨0, 12⟩, ";"⟩]⟩ := by
    decide +kernel
  exact ⟨_, _, htokens, rfl, rfl, by decide⟩

end Script
