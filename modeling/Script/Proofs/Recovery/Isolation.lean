import Script.Proofs.Grammar.Program
import Script.Proofs.Recovery.Shape
/-!
# A malformed statement stays alone

What recovery skips is the malformed statement and nothing else. An element that began in it could
not end beyond it: no sentence goes on over the end of a statement with what begins another one. So
the error is found before, wherever that is, and the tokens behind are read as if they stood alone.
-/

namespace Script

open Script.Parser Script.Grammar

private theorem Grammar.Program.opens {token : Token} {rest : List Token} {elements : List Element}
    (h : Program (token :: rest) elements) : token.value = ";" ∨ Opens token := by
  generalize htokens : token :: rest = tokens at h
  cases h with
  | nil => cases htokens
  | cons h _ =>
    obtain ⟨first, us, rfl, hfirst⟩ := h.exists_first
    obtain ⟨rfl, -⟩ := List.cons.inj htokens
    exact hfirst

/-- No program begins with what a sentence goes on with behind a semicolon. -/
theorem Grammar.Program.not_goesOn {token : Token} {rest : List Token} {elements : List Element}
    (h : Program (token :: rest) elements) : ¬(token.value = ")" ∨ token.value = ",") := by
  rintro (hs | hs)
  · rcases h.opens with he | ho
    · rw [hs] at he
      exact absurd he (by decide)
    · exact ho.ne (by decide) (by decide) hs
  · rcases h.opens with he | ho
    · rw [hs] at he
      exact absurd he (by decide)
    · exact ho.ne (by decide) (by decide) hs

/-- Tokens that are no program, and of which only the last one could end a statement. -/
structure Malformed (tokens : List Token) : Prop where
  not_program : ∀ es, ¬Program tokens es
  syncPoint_iff : ∀ j, SyncPoint 0 tokens j ↔ j + 1 = tokens.length

section

variable {malformed behind : List Token} {elements : List Element}

namespace Malformed

theorem ne_nil (h : Malformed malformed) : malformed ≠ [] := by
  rintro rfl
  exact h.not_program [] .nil

theorem exists_syncPoint (h : Malformed malformed) :
    ∃ j, j + 1 = malformed.length ∧ SyncPoint 0 malformed j := by
  have hlength : malformed.length - 1 + 1 = malformed.length :=
    Nat.sub_add_cancel (List.length_pos_iff.2 h.ne_nil)
  exact ⟨malformed.length - 1, hlength, (h.syncPoint_iff _).2 hlength⟩

theorem length_rest_pos (h : Malformed malformed) {c : Cursor}
    (hc : c.rest = malformed ++ behind) : 0 < c.rest.length := by
  rw [hc]
  exact List.length_pos_iff.2 (List.append_ne_nil_of_left_ne_nil h.ne_nil behind)

private theorem eq_of_sentence (hm : Malformed malformed) {ts rest : List Token}
    {element? : Option Element} (h : Sentence ts element?) (hbehind : Program behind elements)
    (htokens : malformed ++ behind = ts ++ rest) : malformed = ts := by
  rcases List.append_eq_append_iff.1 htokens with ⟨us, rfl, hus⟩ | ⟨us, rfl, -⟩
  · cases us with
    | nil => exact (List.append_nil _).symm
    | cons next us =>
      obtain ⟨j, hj, before, token, after, rfl, rfl, hends⟩ := hm.exists_syncPoint
      have hafter : after = [] := by
        rw [List.length_append, List.length_cons] at hj
        exact List.length_eq_zero_iff.1 (by omega)
      subst hafter
      rw [List.append_assoc] at h
      rw [hus] at hbehind
      exact absurd (h.goesOn_of_syncPoint hends) hbehind.not_goesOn
  · obtain ⟨j, hj, hpoint⟩ := h.syncPoint_last
    have hlength := (hm.syncPoint_iff j).1 ((syncPoint_append_iff (by omega)).2 hpoint)
    rw [List.length_append] at hlength
    have hus : us.length = 0 := by omega
    rw [List.length_eq_zero_iff.1 hus, List.append_nil]

private theorem exists_fault (hm : Malformed malformed) (hbehind : Program behind elements)
    {c : Cursor} (hc : c.rest = malformed ++ behind) :
    ∃ fault, (element Rule.defaults).run c = .error fault := by
  cases hrun : (element Rule.defaults).run c with
  | error fault => exact ⟨fault, rfl⟩
  | ok r =>
    obtain ⟨element?, d⟩ := r
    obtain ⟨ts, hts, hsentence⟩ := spellsAt_element (hm.length_rest_pos hc) element? d hrun
    have htokens := hts.rest_eq
    rw [hc] at htokens
    obtain rfl := hm.eq_of_sentence hsentence hbehind htokens
    have hprogram := Program.cons hsentence .nil
    rw [List.append_nil] at hprogram
    exact absurd hprogram (hm.not_program _)

/-- Reading resumes right behind the malformed tokens. -/
theorem passes_resume (hm : Malformed malformed) {c : Cursor}
    (hc : c.rest = malformed ++ behind) : c.Passes malformed (resume c) := by
  obtain ⟨j, hj, hlast⟩ := hm.exists_syncPoint
  have hskipped : skippedLength 0 (malformed ++ behind) = malformed.length := by
    rw [← hj]
    refine skippedLength_eq_of_first ?_ fun i hi hpoint => ?_
    · rw [syncPoint_append_iff (by omega)]
      exact hlast
    · rw [syncPoint_append_iff (by omega), hm.syncPoint_iff] at hpoint
      omega
  rw [resume, hc, hskipped]
  exact Cursor.passes_advance hc

end Malformed

/-- Around malformed tokens everything is read, and one error is noted. -/
theorem readProgram_isolates {ahead : List Token} {es : List Element} (hahead : Program ahead es)
    (hm : Malformed malformed) (hbehind : Program behind elements) :
    ∃ fault, readProgram Rule.defaults true (ahead ++ malformed ++ behind) =
      { elements := es ++ elements, noted := [fault] } := by
  obtain ⟨c, hpasses, hc⟩ :=
    Cursor.exists_passes (c := .start (ahead ++ malformed ++ behind)) (List.append_assoc ..)
  obtain ⟨fault, hfault⟩ := hm.exists_fault hbehind hc
  have hresume := hm.passes_resume hc
  have hrest : (resume c).rest = behind ++ [] := by
    have heq := hresume.rest_eq
    rw [hc] at heq
    rw [List.append_nil]
    exact (List.append_cancel_left heq).symm
  obtain ⟨d, hd, hend⟩ := Cursor.exists_passes hrest
  refine ⟨fault, ?_⟩
  rw [readProgram_eq_readFrom, hahead.readFrom_eq true hpasses,
    readFrom_of_error (hm.length_rest_pos hc) hfault, if_pos rfl, hbehind.readFrom_eq true hd,
    readFrom_nil hend]
  simp [Outcome.withElements, Outcome.withNoted]

end

/-- Between tokens that are read without errors, malformed tokens that could only end with their
last one cost an error, and no element. -/
theorem Settings.parse_isolates (file : Option String) (verbose : Bool) (source : String)
    {ahead malformed behind : List Token} {a b : Parsed} {e : Diagnostic SyntaxError}
    (hahead : parse { file, verbose } ahead source = .ok a)
    (hmalformed : parse { file, verbose } malformed source = .error e)
    (hsync : ∀ j, SyncPoint 0 malformed j ↔ j + 1 = malformed.length)
    (hbehind : parse { file, verbose } behind source = .ok b) :
    ∃ error, parse { file, verbose, recover := true } (ahead ++ malformed ++ behind) source =
      .ok ⟨⟨file, a.root.elements ++ b.root.elements⟩, [error]⟩ := by
  obtain ⟨es, hes, rfl⟩ := parse_eq_ok_iff_program.1 hahead
  obtain ⟨fs, hfs, rfl⟩ := parse_eq_ok_iff_program.1 hbehind
  have hnot : ∀ gs, ¬Program malformed gs := by
    intro gs hgs
    have hparse : parse { file, verbose } malformed source = .ok ⟨⟨file, gs⟩, []⟩ :=
      parse_eq_ok_iff_program.2 ⟨gs, hgs, rfl⟩
    rw [hmalformed] at hparse
    cases hparse
  obtain ⟨fault, hread⟩ := readProgram_isolates hes ⟨hnot, hsync⟩ hfs
  refine ⟨diagnose { file, verbose, recover := true } source fault, ?_⟩
  rw [parse_eq_ok_iff, hread]
  exact ⟨rfl, rfl⟩

/-- An assignment without its value, between two statements. -/
theorem Settings.parse_isolates_missing_value :
    ∃ error, parse { recover := true }
        (["x", "=", "1", ";"].map (Token.mk {}) ++ ["y", "=", ";"].map (Token.mk {}) ++
          ["f", "(", ")", ";"].map (Token.mk {})) "" =
      .ok ⟨⟨none, [.assignment ⟨"x", .literal ⟨.int, "1", {}⟩, {}⟩,
        .value (.call ⟨"f", false, [], {}⟩)]⟩, [error]⟩ := by
  have hwithin : ∀ j < 3, SyncPoint 0 (["y", "=", ";"].map (Token.mk {})) j ↔ j + 1 = 3 := by
    decide
  have hsync : ∀ j, SyncPoint 0 (["y", "=", ";"].map (Token.mk {})) j ↔ j + 1 = 3 := by
    intro j
    by_cases hj : j < 3
    · exact hwithin j hj
    · exact ⟨fun h => absurd h.lt_length hj, by omega⟩
  have hahead : parse {} (["x", "=", "1", ";"].map (Token.mk {})) "" = .ok _ := rfl
  have hmalformed : parse {} (["y", "=", ";"].map (Token.mk {})) "" = .error _ := rfl
  have hbehind : parse {} (["f", "(", ")", ";"].map (Token.mk {})) "" = .ok _ := rfl
  exact parse_isolates none false "" hahead hmalformed hsync hbehind

end Script
