import Script.Proofs.Grammar.Program
import Script.Proofs.Writing.Lexemes
import Script.Proofs.Writing.Sentences
/-!
# Reading what was written

A program that can be written is read back from its source: the source is cut into the texts it was
written from, and these spell the program.
-/

namespace Script

open Grammar

/-- Elements are read back from the source that is written for them, without an error and the same
up to positions, in whatever style they are written. -/
theorem parseSource_write (style : Style) (file : Option String) (recover verbose : Bool)
    {elements : List Element} (h : ∀ e ∈ elements, e.Writable) :
    ∃ parsed, parseSource { file, recover, verbose }
        (style.write (Element.listSpelling style elements)) = .ok parsed ∧
      parsed.errors = [] ∧
      parsed.root.elements.map Element.unplaced = elements.map Element.unplaced := by
  obtain ⟨tokens, htokenize, hvalues⟩ :=
    style.tokenize_write (lexeme_listSpelling fun e he => (h e he).lexeme) file
  obtain ⟨spelled, hprogram, hspelled⟩ := exists_program fun e he => (h e he).exists_sentence style
  have halike : tokens.map Token.value =
      (tokensOf (Element.listSpelling style elements)).map Token.value := by
    rw [hvalues, map_value_tokensOf]
  obtain ⟨parsed, hparse, herrors, hparsed⟩ :=
    Settings.exists_parse_of_program (style.write (Element.listSpelling style elements)) halike
      hprogram
  refine ⟨parsed, ?_, herrors, hparsed.trans hspelled⟩
  unfold parseSource
  rw [htokenize]
  simp only
  rw [hparse]

def quoting : List Element :=
  [.declaration ⟨"find", true, {}, .function
    ⟨"text[]", [⟨"count", "int", {}⟩],
      [.value (.call ⟨"postincrement", true, [.reference ⟨"count", {}⟩], {}⟩),
        .value (.call ⟨"return", true,
          [.call ⟨"find", false, [.reference ⟨"count", {}⟩, .literal ⟨.string, "\"", {}⟩], {}⟩],
          {}⟩)]⟩⟩]

theorem parseSource_write_quoting :
    (∀ e ∈ quoting, e.Writable) ∧
      ∃ parsed, parseSource {} (Style.usual.write (Element.listSpelling Style.usual quoting)) =
          .ok parsed ∧
        parsed.errors = [] ∧
        parsed.root.elements.map Element.unplaced = quoting.map Element.unplaced := by
  have hfind : IsName "find" := ⟨by decide, by decide⟩
  have hcount : IsName "count" := ⟨by decide, by decide⟩
  have hint : IsType "int" := ⟨"int", 0, ⟨by decide, by decide⟩, by decide⟩
  have htext : IsType "text[]" := ⟨"text", 1, ⟨by decide, by decide⟩, by decide⟩
  have hparameters : ∀ p ∈ [(⟨"count", "int", {}⟩ : Parameter)], p.Writable :=
    List.forall_mem_singleton.2 ⟨hcount, hint⟩
  have hreturned : Value.Operand (.call
      ⟨"find", false, [.reference ⟨"count", {}⟩, .literal ⟨.string, "\"", {}⟩], {}⟩) :=
    .call hfind (List.forall_mem_cons.2
      ⟨.reference hcount, List.forall_mem_singleton.2 (.literal trivial)⟩)
  have hquoting : ∀ e ∈ quoting, e.Writable := by
    refine List.forall_mem_singleton.2 (.function hfind hparameters htext ?_)
    exact List.forall_mem_cons.2
      ⟨.counting (.intro (by decide) hcount),
        List.forall_mem_singleton.2 (.returned (.inl hreturned))⟩
  exact ⟨hquoting, parseSource_write Style.usual none false false hquoting⟩

example : Style.usual.write (Element.listSpelling Style.usual quoting) =
    "export func find(int count) text[] \x7b\ncount++;\nreturn find(count, \"\\\"\");\n\x7d" := by
  decide

end Script
