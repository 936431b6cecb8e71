import Script.Proofs.Grammar.Program
import Script.Proofs.Parser.Beginnings
/-!
# Programs one after the other

A program does not reach beyond its tokens: no element of it looks for what stands behind it, and
what stands behind it does not look back. So tokens behind a program are read as if they stood
alone.
-/

namespace Script

open Script.Parser Script.Grammar

/-- Behind a program everything is read as if the program were not there, errors included. -/
theorem readProgram_append {ahead : List Token} {elements : List Element}
    (h : Program ahead elements) (recover : Bool) (behind : List Token) :
    readProgram Rule.defaults recover (ahead ++ behind) =
      (readProgram Rule.defaults recover behind).withElements elements := by
  obtain ⟨d, hd, hrest⟩ := Cursor.exists_passes (c := .start (ahead ++ behind)) rfl
  have hbehind : readFrom Rule.defaults recover d = readProgram Rule.defaults recover behind :=
    readFrom_congr Rule.defaults recover (d := .start behind) hrest
  rw [readProgram_eq_readFrom, h.readFrom_eq recover hd, hbehind]

namespace Settings

private theorem program_of_parse {settings : Settings} {tokens : List Token} {source : String}
    {parsed : Parsed} (hrules : settings.rules = Rule.defaults)
    (h : settings.parse tokens source = .ok parsed) (herrors : parsed.errors = []) :
    Program tokens parsed.root.elements := by
  obtain ⟨hfatal, rfl⟩ := parse_eq_ok_iff.1 h
  rw [hrules] at hfatal herrors ⊢
  have hnoted := List.map_eq_nil_iff.1 herrors
  have hread : readProgram Rule.defaults settings.recover tokens =
      { elements := (readProgram Rule.defaults settings.recover tokens).elements } := by
    rw [← hnoted, ← hfatal]
  exact readProgram_eq_iff.1 hread

/-- Tokens behind others that are read without an error are read as if they stood alone: the
elements of both come one after the other, and the errors are those of the tokens behind. -/
theorem parse_append (file : Option String) (recover recover' verbose : Bool)
    (source source' : String) {ahead : List Token} {a : Parsed}
    (hahead : parse { file, verbose, recover := recover' } ahead source' = .ok a)
    (herrors : a.errors = []) (behind : List Token) :
    parse { file, verbose, recover } (ahead ++ behind) source =
      (parse { file, verbose, recover } behind source).map fun b =>
        ⟨⟨file, a.root.elements ++ b.root.elements⟩, b.errors⟩ := by
  have hprogram := program_of_parse rfl hahead herrors
  rw [parse, parse, readProgram_append hprogram]
  simp only [Outcome.withElements]
  cases (readProgram Rule.defaults recover behind).fatal? with
  | none => rfl
  | some fault => rfl

/-- A statement, and behind it a parenthesis that it could have gone on with. Alone, the parenthesis
is an error, and a call behind it is read. -/
theorem parse_append_stray_parenthesis :
    let ahead : List Token := ["x", "++", ";"].map (Token.mk {})
    let behind : List Token := [")", ";", "f", "(", ")", ";"].map (Token.mk {})
    let step : Element := .value (.call ⟨"postincrement", true, [.reference ⟨"x", {}⟩], {}⟩)
    let call : Element := .value (.call ⟨"f", false, [], {}⟩)
    let stray : Diagnostic SyntaxError := ⟨.unexpectedToken ")", {}, "", none⟩
    parse {} ahead "" = .ok ⟨⟨none, [step]⟩, []⟩ ∧
      parse { recover := true } behind "" = .ok ⟨⟨none, [call]⟩, [stray]⟩ ∧
      parse { recover := true } (ahead ++ behind) "" = .ok ⟨⟨none, [step, call]⟩, [stray]⟩ := by
  intro ahead behind step call stray
  have hahead : parse {} ahead "" = .ok ⟨⟨none, [step]⟩, []⟩ := rfl
  have hbehind : parse { recover := true } behind "" = .ok ⟨⟨none, [call]⟩, [stray]⟩ := rfl
  refine ⟨hahead, hbehind, ?_⟩
  have happend := parse_append none true false false "" "" hahead rfl behind
  rw [hbehind] at happend
  exact happend

end Settings

end Script
