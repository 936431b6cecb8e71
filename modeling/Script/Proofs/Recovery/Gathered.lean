import Script.Proofs.Grammar.Soundness
import Script.Proofs.Recovery.Agreement
import Script.Program.Progress
/-!
# What is read between errors

Whether or not there are errors, every element that is read is spelled by a sentence. The sentences
stand one behind the other among the tokens, and what was passed over stands between them.
-/

namespace Script

open Script.Parser Script.Grammar

namespace Grammar

/-- Sentences that stand among the tokens, one behind the other, spell the elements. -/
inductive Gathered : List Token → List Element → Prop
  | nil : Gathered [] []
  | sentence {ts us : List Token} {element? : Option Element} {elements : List Element}
      (h : Sentence ts element?) (hs : Gathered us elements) :
      Gathered (ts ++ us) (element?.toList ++ elements)
  | skipped (ts : List Token) {us : List Token} {elements : List Element}
      (hs : Gathered us elements) : Gathered (ts ++ us) elements

private theorem gathered_nil (tokens : List Token) : Gathered tokens [] := by
  have h := Gathered.skipped tokens .nil
  rwa [List.append_nil] at h

/-- What holds of every element that a sentence spells holds of all elements. -/
theorem Gathered.forall_mem {P : Element → Prop}
    (hP : ∀ ts element?, Sentence ts element? → ∀ e ∈ element?, P e) {tokens : List Token}
    {elements : List Element} (h : Gathered tokens elements) : ∀ e ∈ elements, P e := by
  induction h with
  | nil => exact List.forall_mem_nil P
  | @sentence ts us element? elements h _ ih =>
    refine List.forall_mem_append.2 ⟨fun e he => hP ts element? h e ?_, ih⟩
    exact Option.mem_toList.1 he
  | skipped _ _ ih => exact ih

private theorem gathered_readFrom (recover : Bool) (c : Cursor) :
    Gathered c.rest (readFrom Rule.defaults recover c).elements := by
  by_cases hpos : 0 < c.rest.length
  · cases hrun : (element Rule.defaults).run c with
    | ok r =>
      obtain ⟨element?, d⟩ := r
      have hlt := advances_element _ _ _ _ hpos hrun
      have hbehind := gathered_readFrom recover d
      obtain ⟨ts, hts, hs⟩ := spellsAt_element hpos element? d hrun
      rw [readFrom_of_ok hpos hrun, hts.rest_eq]
      exact .sentence hs hbehind
    | error fault =>
      have hlt := length_resume_lt hpos
      rw [readFrom_of_error hpos hrun]
      cases recover with
      | false => exact gathered_nil c.rest
      | true =>
        have hskipped := (gathered_readFrom true (resume c)).skipped
          (c.rest.take (skippedLength 0 c.rest))
        rwa [resume, Cursor.rest_advance, List.take_append_drop] at hskipped
  · have hrest : c.rest = [] := List.length_eq_zero_iff.1 (by omega)
    rw [readFrom_nil hrest, hrest]
    exact .nil
termination_by c.rest.length

end Grammar

/-- Whether or not errors are passed over, the elements that are read are gathered from the tokens. -/
theorem Settings.gathered_of_parse {file : Option String} {recover verbose : Bool}
    {tokens : List Token} {source : String} {parsed : Parsed}
    (h : parse { file, recover, verbose } tokens source = .ok parsed) :
    Gathered tokens parsed.root.elements := by
  obtain ⟨-, rfl⟩ := parse_eq_ok_iff.1 h
  exact gathered_readFrom recover (.start tokens)

end Script
