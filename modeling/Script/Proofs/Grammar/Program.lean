import Script.Proofs.Grammar.Sentence
import Script.Proofs.Grammar.Soundness
import Script.Proofs.Parser.Positions
import Script.Proofs.Recovery.Agreement
/-!
# The grammar is what is read

Reading tokens to their end without an error, and spelling a program, are the same thing: whatever
is read is spelled by the grammar, and whatever the grammar spells is read. As the reader gives one
outcome, the grammar is unambiguous.
-/

namespace Script

open Script.Parser Script.Grammar

def Outcome.withElements (elements : List Element) (outcome : Outcome) : Outcome :=
  { outcome with elements := elements ++ outcome.elements }

@[simp] theorem Outcome.withElements_nil (outcome : Outcome) : outcome.withElements [] = outcome :=
  rfl

private theorem Outcome.withElement_withElements (element? : Option Element)
    (elements : List Element) (outcome : Outcome) :
    (outcome.withElements elements).withElement element? =
      outcome.withElements (element?.toList ++ elements) := by
  simp only [withElement, withElements, List.append_assoc]

namespace Grammar

theorem Program.readFrom_eq {ts : List Token} {elements : List Element} (h : Program ts elements)
    (recover : Bool) {c d : Cursor} (hd : c.Passes ts d) :
    readFrom Rule.defaults recover c =
      (readFrom Rule.defaults recover d).withElements elements := by
  match h with
  | .nil =>
    rw [Cursor.passes_nil_iff.1 hd, Outcome.withElements_nil]
  | @Program.cons ts us element? elements h hs =>
    obtain ⟨e, hce, hed⟩ := Cursor.passes_append_iff.1 hd
    have hpos : 0 < c.rest.length := by
      obtain ⟨t, vs, rfl, -⟩ := h.exists_first
      rw [hce.rest_eq]
      simp
    rw [readFrom_of_ok hpos (h.reads c e hce trivial), hs.readFrom_eq recover hed,
      Outcome.withElement_withElements]

private theorem program_of_readFrom {recover : Bool} {c : Cursor} {elements : List Element}
    (h : readFrom Rule.defaults recover c = { elements }) : Program c.rest elements := by
  by_cases hpos : 0 < c.rest.length
  · cases hrun : (element Rule.defaults).run c with
    | error fault =>
      rw [readFrom_of_error hpos hrun] at h
      cases recover <;> simp [Outcome.withNoted] at h
    | ok r =>
      obtain ⟨element?, d⟩ := r
      obtain ⟨ts, hts, hs⟩ := spellsAt_element hpos element? d hrun
      have hlt := advances_element _ _ _ _ hpos hrun
      rw [readFrom_of_ok hpos hrun] at h
      have helements := congrArg Outcome.elements h
      simp only [Outcome.withElement] at helements
      have hbehind : readFrom Rule.defaults recover d =
          { elements := (readFrom Rule.defaults recover d).elements } := by
        have hnoted := congrArg Outcome.noted h
        have hfatal := congrArg Outcome.fatal? h
        simp only [Outcome.withElement] at hnoted hfatal
        rw [← hnoted, ← hfatal]
      rw [hts.rest_eq, ← helements]
      exact .cons hs (program_of_readFrom hbehind)
  · have hrest : c.rest = [] := List.length_eq_zero_iff.1 (by omega)
    rw [readFrom_nil hrest] at h
    obtain rfl : [] = elements := congrArg Outcome.elements h
    rw [hrest]
    exact .nil
termination_by c.rest.length

theorem readProgram_eq_iff {recover : Bool} {tokens : List Token} {elements : List Element} :
    readProgram Rule.defaults recover tokens = { elements } ↔ Program tokens elements := by
  rw [readProgram_eq_readFrom]
  constructor
  · exact fun h => program_of_readFrom h
  · intro h
    have hall : (Cursor.start tokens).rest = tokens ++ [] := (List.append_nil tokens).symm
    obtain ⟨d, hd, hrest⟩ := Cursor.exists_passes hall
    rw [h.readFrom_eq recover hd, readFrom_nil hrest]
    simp [Outcome.withElements]

end Grammar

/-- Without recovery an outcome that no error ended is one without errors. -/
theorem readProgram_eq_of_fatal?_eq_none {rules : List Rule} {tokens : List Token}
    (h : (readProgram rules false tokens).fatal? = none) :
    readProgram rules false tokens = { elements := (readProgram rules false tokens).elements } := by
  have hnoted := (readProgram_agrees rules tokens).noted_eq
  generalize readProgram rules false tokens = outcome at h hnoted
  obtain ⟨elements, noted, fatal?⟩ := outcome
  subst h hnoted
  rfl

namespace Settings

variable {file : Option String} {recover verbose : Bool} {tokens : List Token}

theorem parse_eq_ok_iff_program {source : String} {parsed : Parsed} :
    parse { file, verbose } tokens source = .ok parsed ↔
      ∃ elements, Program tokens elements ∧ parsed = ⟨⟨file, elements⟩, []⟩ := by
  rw [parse_eq_ok_iff]
  constructor
  · rintro ⟨hfatal, rfl⟩
    have hread := readProgram_eq_of_fatal?_eq_none hfatal
    refine ⟨_, readProgram_eq_iff.1 hread, ?_⟩
    rw [hread]
    rfl
  · rintro ⟨elements, h, rfl⟩
    rw [readProgram_eq_iff.2 h]
    exact ⟨rfl, rfl⟩

/-- Tokens with the texts of a program are read as this program, wherever they stand. -/
theorem exists_parse_of_program {spelled : List Token} {elements : List Element} (source : String)
    (hvalues : tokens.map Token.value = spelled.map Token.value) (h : Program spelled elements) :
    ∃ parsed, parse { file, recover, verbose } tokens source = .ok parsed ∧ parsed.errors = [] ∧
      parsed.root.elements.map Element.unplaced = elements.map Element.unplaced := by
  have halike := readProgram_alike recover hvalues
  rw [readProgram_eq_iff.2 h] at halike
  obtain ⟨helements, hnoted, hfatal⟩ := halike
  refine ⟨_, parse_eq_ok_iff.2 ⟨?_, rfl⟩, ?_, helements⟩
  · simpa using hfatal
  · simpa using hnoted

end Settings

/-- Tokens are read as elements exactly if their texts spell these elements. -/
theorem Settings.parse_ok_iff_derives (file : Option String) (verbose : Bool)
    (tokens : List Token) (source : String) (elements : List Element) :
    (∃ parsed, parse { file, verbose } tokens source = .ok parsed ∧
        parsed.root.elements.map Element.unplaced = elements) ↔
      Derives (tokens.map Token.value) elements := by
  constructor
  · rintro ⟨parsed, hparse, rfl⟩
    obtain ⟨placed, hprogram, rfl⟩ := parse_eq_ok_iff_program.1 hparse
    exact ⟨tokens, placed, rfl, hprogram, rfl⟩
  · rintro ⟨spelled, placed, hvalues, hprogram, rfl⟩
    obtain ⟨parsed, hparse, -, helements⟩ :=
      exists_parse_of_program source hvalues.symm hprogram
    exact ⟨parsed, hparse, helements⟩

end Script
