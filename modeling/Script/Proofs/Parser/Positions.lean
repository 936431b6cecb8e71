import Script.Program.Progress
import Script.Proofs.Grammar.Step
import Script.Proofs.Parser.Mirrors
/-!
# Positions do not matter

Every parser with the default rules mirrors itself: where tokens stand changes neither whether they
are read nor what is read, except for the positions in it.
-/

namespace Script.Grammar

open Script.Parser

theorem Step.exists_alike {ts us : List Token} {v : Value} (h : Step ts v)
    (hts : SpelledAlike ts us) : ∃ w, Step us w ∧ v.unplaced = w.unplaced := by
  cases h with
  | @before sign name semicolon hs hn he =>
    obtain ⟨sign', us, rfl, hsign, hus⟩ := spelledAlike_cons_iff.1 hts
    obtain ⟨name', us, rfl, hname, hus⟩ := spelledAlike_cons_iff.1 hus
    obtain ⟨semicolon', us, rfl, hsemicolon, hus⟩ := spelledAlike_cons_iff.1 hus
    obtain rfl := spelledAlike_nil_iff.1 hus
    rw [hsign] at hs
    rw [Word, hname] at hn
    rw [hsemicolon] at he
    refine ⟨_, .before hs hn he, ?_⟩
    simp [Value.unplaced, Call.unplaced, Value.listUnplaced, Reference.unplaced, hsign, hname]
  | @behind name sign semicolon hn hs he =>
    obtain ⟨name', us, rfl, hname, hus⟩ := spelledAlike_cons_iff.1 hts
    obtain ⟨sign', us, rfl, hsign, hus⟩ := spelledAlike_cons_iff.1 hus
    obtain ⟨semicolon', us, rfl, hsemicolon, hus⟩ := spelledAlike_cons_iff.1 hus
    obtain rfl := spelledAlike_nil_iff.1 hus
    rw [hsign] at hs
    rw [Word, hname] at hn
    rw [hsemicolon] at he
    refine ⟨_, .behind hn hs he, ?_⟩
    simp [Value.unplaced, Call.unplaced, Value.listUnplaced, Reference.unplaced, hsign, hname]

end Script.Grammar

namespace Script.Parser

open Grammar (Step exists_step_of_stepApplies run_byRule_of_not)

variable {α β : Type}

/-! ### Expressions -/

theorem Mirrors.parenthesized {u : α → β} {p q : Parser α} (h : Mirrors u p q) :
    Mirrors (List.map u) (parenthesized p) (parenthesized q) := by
  have hitems : Mirrors (List.map u) (Parser.recursive (itemsBody p))
      (Parser.recursive (itemsBody q)) := by
    refine .recursive fun r s hrs => h.bind fun a b hab => ?_
    refine (mirrors_accept _).bind_id fun comma => .ite ?_ ?_
    · exact hrs.bind fun as bs habs => mirrors_pure (by simp [hab, habs])
    · exact (mirrors_expect _ _).bind_id fun _ => mirrors_pure (by simp [hab])
  refine (mirrors_expect _ _).bind_id fun _ => (mirrors_accept _).bind_id fun closed => ?_
  exact .ite (mirrors_pure rfl) hitems

private theorem Mirrors.call {p q : Parser Value} (h : Mirrors Value.unplaced p q) :
    Mirrors Value.unplaced (call p) (call q) := by
  refine mirrors_identifier.bind fun name name' hname => h.parenthesized.bind fun vs ws hvs => ?_
  refine mirrors_pure ?_
  simp only [Value.unplaced, Call.unplaced, Value.listUnplaced_eq_map, hname, hvs]

private theorem mirrors_atom : Mirrors Value.unplaced atom atom := by
  refine mirrors_token.bind fun t w hw => ?_
  simp only [Literal.ofToken, hw]
  cases Literal.read w.value with
  | ok literal => exact mirrors_pure (by simp [Value.unplaced, Literal.unplaced])
  | error kind =>
    exact .ite (mirrors_pure (by simp [Value.unplaced, Reference.unplaced]))
      (mirrors_failAt rfl _ _)

private theorem Mirrors.plain {p q : Parser Value} (h : Mirrors Value.unplaced p q) :
    Mirrors Value.unplaced (plain p) (plain q) := by
  refine .bind_upcoming fun ts us hts => ?_
  rcases hts.cases with ⟨rfl, rfl⟩ | ⟨t, w, ts, us, rfl, rfl, hw, hrest⟩
  · exact mirrors_fail _
  · simp only [Token.is, hw, hrest.startsWith_eq]
    refine .ite ((mirrors_skip 1).bind_id fun _ => ?_) (.ite h.call mirrors_atom)
    exact h.bind fun v v' hv => (mirrors_expect _ _).bind_id fun _ => mirrors_pure hv

private theorem SpelledAlike.stepApplies {ts us : List Token} (h : SpelledAlike ts us)
    (hts : Rule.stepApplies ts = true) : Rule.stepApplies us = true := by
  obtain ⟨ts, v, rest, rfl, hs⟩ := exists_step_of_stepApplies hts
  obtain ⟨us, rest', rfl, hus, -⟩ := h.exists_append
  obtain ⟨w, hw, -⟩ := hs.exists_alike hus
  exact hw.stepApplies rest'

theorem mirrors_byRule (valuesOnly : Bool) :
    Mirrors (Option.map Element.unplaced) (byRule Rule.defaults valuesOnly)
      (byRule Rule.defaults valuesOnly) := by
  intro c d hcd
  cases hc : Rule.stepApplies c.rest with
  | false =>
    have hd : Rule.stepApplies d.rest = false := by
      rw [← Bool.not_eq_true]
      intro hd
      rw [hcd.2.symm.stepApplies hd] at hc
      cases hc
    rw [run_byRule_of_not hc, run_byRule_of_not hd]
    exact .ok rfl hcd
  | true =>
    obtain ⟨ts, v, rest, hrest, hs⟩ := exists_step_of_stepApplies hc
    obtain ⟨us, rest', hrest', hus, -⟩ := (hrest ▸ hcd.2).exists_append
    obtain ⟨w, hw, hvw⟩ := hs.exists_alike hus
    rw [hs.reads valuesOnly c _ (Cursor.passes_advance hrest) trivial,
      hw.reads valuesOnly d _ (Cursor.passes_advance hrest') trivial, hus.length_eq]
    exact .ok (by simp [Element.unplaced, hvw]) (hcd.advance _)

theorem mirrors_expression :
    Mirrors Value.unplaced (expression Rule.defaults) (expression Rule.defaults) := by
  refine .recursive fun p q h => (mirrors_byRule true).bind fun a b hab => ?_
  rcases eq_none_or_some_of_map_eq hab with ⟨rfl, rfl⟩ | ⟨a, b, rfl, rfl, hab⟩
  · exact h.plain
  · have hvalue : a.value?.map Value.unplaced = b.value?.map Value.unplaced := by
      cases a <;> cases b <;> simp_all [Element.unplaced, Element.value?]
    simp only
    rcases eq_none_or_some_of_map_eq hvalue with ⟨ha, hb⟩ | ⟨v, w, ha, hb, hvw⟩
    · rw [ha, hb]
      exact mirrors_failAt rfl _ _
    · rw [ha, hb]
      exact mirrors_pure hvw

/-! ### Declarations -/

private theorem mirrors_suffixes :
    Mirrors id (recursive suffixesBody) (recursive suffixesBody) := by
  refine .recursive fun p q h => (mirrors_accept _).bind_id fun joined => .ite ?_ ?_
  · exact h.bind_id fun _ => mirrors_pure rfl
  · refine .bind_upcoming fun ts us hts => ?_
    rw [hts.startsWith_eq, (hts.drop 1).startsWith_eq]
    refine .ite ?_ (mirrors_pure rfl)
    exact (mirrors_skip 2).bind_id fun _ => h.bind_id fun _ => mirrors_pure rfl

theorem mirrors_typeName : Mirrors id typeName typeName :=
  mirrors_identifier.bind fun _ _ hname =>
    mirrors_suffixes.bind_id fun _ => mirrors_pure (by rw [hname])

private theorem mirrors_modifiersBehind {ts us : List Token} (h : SpelledAlike ts us)
    (seen : Modifiers) : Mirrors id (modifiersBehind seen ts) (modifiersBehind seen us) := by
  induction ts generalizing us seen with
  | nil =>
    obtain rfl := spelledAlike_nil_iff.1 h
    exact mirrors_pure rfl
  | cons t ts ih =>
    obtain ⟨w, us, rfl, hw, hus⟩ := spelledAlike_cons_iff.1 h
    have hmodifier : isModifier t = isModifier w := by rw [isModifier, isModifier, hw]
    rw [modifiersBehind, modifiersBehind, hmodifier, hw]
    refine .ite ?_ (mirrors_pure rfl)
    cases seen.add? w.value with
    | some more => exact (mirrors_skip 1).bind_id fun _ => ih hus more
    | none => exact mirrors_fail _

private theorem mirrors_modifiers : Mirrors id modifiers modifiers :=
  .bind_upcoming fun _ _ h => mirrors_modifiersBehind h _

theorem mirrors_finish : Mirrors id finish finish := by
  refine mirrors_previous.bind fun a b hab => ?_
  have hsemicolon : a.any (·.is ";") = b.any (·.is ";") := by
    have hany := congrArg (Option.any (· == ";")) hab
    rwa [Option.any_map, Option.any_map] at hany
  rw [hsemicolon]
  exact .ite (mirrors_pure rfl) (mirrors_expect _ _)

private theorem mirrors_parameter : Mirrors Parameter.unplaced parameter parameter := by
  refine mirrors_here.bind fun _ _ _ => mirrors_typeName.bind_id fun type => ?_
  exact mirrors_identifier.bind fun _ _ hname => mirrors_pure (by simp [Parameter.unplaced, hname])

private theorem mirrors_valueStatement :
    Mirrors Value.unplaced (valueStatement Rule.defaults) (valueStatement Rule.defaults) :=
  mirrors_expression.bind fun _ _ h => mirrors_finish.bind_id fun _ => mirrors_pure h

private theorem mirrors_initializer (constant : Bool) :
    Mirrors (Option.map Value.unplaced) (initializer Rule.defaults constant)
      (initializer Rule.defaults constant) := by
  refine (mirrors_sees _).bind_id fun seen => .ite (.ite (mirrors_fail _) ?_) ?_
  · exact (mirrors_skip 1).bind_id fun _ => mirrors_pure rfl
  · refine (mirrors_expect _ _).bind_id fun _ => mirrors_expression.bind fun v w h => ?_
    exact mirrors_finish.bind_id fun _ => mirrors_pure (by simp [h])

private theorem unplaced_binding (constant : Bool) (type : String) (value? : Option Value) :
    Binding.unplaced (binding constant type value?) =
      binding constant type (value?.map Value.unplaced) := by
  cases value? with
  | none => rfl
  | some value => cases constant <;> rfl

private theorem Mirrors.blockBody {u : α → β} {p q : Parser (Option α)} {r s : Parser (List α)}
    (h : Mirrors (Option.map u) p q) (hrs : Mirrors (List.map u) r s) :
    Mirrors (List.map u) (blockBody p r) (blockBody q s) := by
  refine .bind_upcoming fun ts us hts => ?_
  rcases hts.cases with ⟨rfl, rfl⟩ | ⟨t, w, ts, us, rfl, rfl, hw, -⟩
  · exact mirrors_fail _
  · simp only [Token.is, hw]
    refine .ite ((mirrors_skip 1).bind_id fun _ => mirrors_pure rfl) ?_
    refine h.bind fun first first' hfirst => hrs.bind fun more more' hmore => mirrors_pure ?_
    have hlist := congrArg Option.toList hfirst
    simp only [Option.toList_map] at hlist
    rw [List.map_append, List.map_append, hlist, hmore]

section

variable {p q : Parser (Option Element)}

theorem Mirrors.function (h : Mirrors (Option.map Element.unplaced) p q) (exported : Bool)
    (position position' : Position) :
    Mirrors Declaration.unplaced (function p exported position)
      (function q exported position') := by
  refine (mirrors_expect _ _).bind_id fun _ => mirrors_identifier.bind fun _ _ hname => ?_
  refine mirrors_parameter.parenthesized.bind fun ps qs hps => mirrors_typeName.bind_id fun _ => ?_
  refine (mirrors_expect _ _).bind_id fun _ => ?_
  have hbody : Mirrors (List.map Element.unplaced) (Parser.recursive (Parser.blockBody p))
      (Parser.recursive (Parser.blockBody q)) := .recursive fun r s hrs => h.blockBody hrs
  refine hbody.bind fun es fs hes => mirrors_pure ?_
  simp [Declaration.unplaced, Binding.unplaced, Function.unplaced, Element.listUnplaced_eq_map,
    hname, hps, hes]

private theorem Mirrors.declaration (h : Mirrors (Option.map Element.unplaced) p q) :
    Mirrors Declaration.unplaced (declaration Rule.defaults p) (declaration Rule.defaults q) := by
  refine mirrors_here.bind fun _ _ _ => mirrors_modifiers.bind_id fun m => ?_
  refine (mirrors_sees _).bind_id fun func => .ite (.ite (mirrors_fail _) (h.function _ _ _)) ?_
  refine mirrors_typeName.bind_id fun type => mirrors_identifier.bind fun _ _ hname => ?_
  refine (mirrors_initializer _).bind fun v w hvw => mirrors_pure ?_
  simp [Declaration.unplaced, unplaced_binding, hname, hvw]

end

/-! ### Elements -/

private theorem SpelledAlike.suffixLength_eq {ts us : List Token} (h : SpelledAlike ts us) :
    suffixLength ts = suffixLength us := by
  fun_induction suffixLength ts generalizing us with
  | case1 =>
    obtain rfl := spelledAlike_nil_iff.1 h
    rfl
  | case2 t ts ht ih =>
    obtain ⟨w, us, rfl, hw, hus⟩ := spelledAlike_cons_iff.1 h
    rw [Token.is, hw] at ht
    rw [suffixLength_joined (beq_iff_eq.1 ht), ih hus]
  | case3 t ht =>
    obtain ⟨w, us, rfl, hw, hus⟩ := spelledAlike_cons_iff.1 h
    obtain rfl := spelledAlike_nil_iff.1 hus
    rw [Token.is, hw] at ht
    simp only [suffixLength, Token.is, ht, if_false, Bool.false_eq_true]
  | case4 t ht next ts hsplit ih =>
    obtain ⟨w, us, rfl, hw, hus⟩ := spelledAlike_cons_iff.1 h
    obtain ⟨w', us, rfl, hw', hus⟩ := spelledAlike_cons_iff.1 hus
    simp only [Token.is, hw, hw', Bool.and_eq_true, beq_iff_eq] at hsplit
    rw [suffixLength_split hsplit.1 hsplit.2, ih hus]
  | case5 t ht next ts hsplit =>
    obtain ⟨w, us, rfl, hw, hus⟩ := spelledAlike_cons_iff.1 h
    obtain ⟨w', us, rfl, hw', hus⟩ := spelledAlike_cons_iff.1 hus
    simp only [Token.is, hw, hw'] at ht hsplit
    simp only [suffixLength, Token.is, ht, hsplit, if_false, Bool.false_eq_true]

private theorem SpelledAlike.declares_eq {ts us : List Token} (h : SpelledAlike ts us) :
    declares ts = declares us := by
  have hhead : ts.head?.any isModifier = us.head?.any isModifier := by
    rcases h.cases with ⟨rfl, rfl⟩ | ⟨t, w, ts, us, rfl, rfl, hw, -⟩
    · rfl
    · simp [isModifier, hw]
  have hbehind := h.drop (1 + suffixLength (us.drop 1))
  rw [declares, declares, (h.drop 2).startsWith_eq, hhead, (h.drop 1).suffixLength_eq]
  rcases hbehind.cases with ⟨hts, hus⟩ | ⟨t, w, ts', us', hts, hus, -, hrest⟩
  · rw [hts, hus]
  · rw [hts, hus]
    simp only [hrest.startsWith_eq]

private theorem Mirrors.statement {p q : Parser (Option Element)}
    (h : Mirrors (Option.map Element.unplaced) p q) {t w : Token} {ts us : List Token}
    (hw : t.value = w.value) (hts : SpelledAlike ts us) :
    Mirrors Element.unplaced (statement Rule.defaults p t ts) (statement Rule.defaults q w us) := by
  have hvalue : ∀ {v v' : Value}, v.unplaced = v'.unplaced →
      (Element.value v).unplaced = (Element.value v').unplaced := by
    intro v v' hv
    simp [Element.unplaced, hv]
  have hdeclaration : ∀ {d d' : Declaration Element}, d.unplaced = d'.unplaced →
      (Element.declaration d).unplaced = (Element.declaration d').unplaced := by
    intro d d' hd
    simp [Element.unplaced, hd]
  have hdeclares := (spelledAlike_cons_iff.2 ⟨w, us, rfl, hw, hts⟩).declares_eq
  simp only [Parser.statement, hw, hts.startsWith_eq, hdeclares]
  refine .ite ?_ (.ite (mirrors_fail _) (.ite ?_ (.ite ?_ (.ite ?_ (.ite ?_ (mirrors_fail _))))))
  · refine (mirrors_token.bind fun _ _ _ => mirrors_expression.bind fun v v' hv =>
      mirrors_finish.bind_id fun _ => mirrors_pure ?_ : Mirrors Value.unplaced _ _).bind
        fun _ _ hv => mirrors_pure (hvalue hv)
    simp [Value.unplaced, Call.unplaced, Value.listUnplaced, hv]
  · exact mirrors_valueStatement.bind fun _ _ hv => mirrors_pure (hvalue hv)
  · exact h.declaration.bind fun _ _ hd => mirrors_pure (hdeclaration hd)
  · exact (h.function _ _ _).bind fun _ _ hd => mirrors_pure (hdeclaration hd)
  · refine (mirrors_identifier.bind fun _ _ hname => (mirrors_expect _ _).bind_id fun _ =>
      mirrors_expression.bind fun v v' hv => mirrors_finish.bind_id fun _ => mirrors_pure ?_ :
        Mirrors Assignment.unplaced _ _).bind fun _ _ ha => mirrors_pure ?_
    · simp [Assignment.unplaced, hname, hv]
    · simp [Element.unplaced, ha]

private theorem Mirrors.elementBody {p q : Parser (Option Element)}
    (h : Mirrors (Option.map Element.unplaced) p q) :
    Mirrors (Option.map Element.unplaced) (elementBody Rule.defaults p)
      (elementBody Rule.defaults q) := by
  refine .bind_upcoming fun ts us hts => ?_
  rcases hts.cases with ⟨rfl, rfl⟩ | ⟨t, w, ts, us, rfl, rfl, hw, hrest⟩
  · exact mirrors_pure rfl
  · simp only [Token.is, hw]
    refine .ite ((mirrors_skip 1).bind_id fun _ => mirrors_pure rfl) ?_
    refine (mirrors_byRule false).bind fun a b hab => ?_
    rcases eq_none_or_some_of_map_eq hab with ⟨rfl, rfl⟩ | ⟨a, b, rfl, rfl, -⟩
    · exact (h.statement hw hrest).bind fun _ _ he => mirrors_pure (by simp [he])
    · exact mirrors_pure hab

private theorem mirrors_element :
    Mirrors (Option.map Element.unplaced) (element Rule.defaults) (element Rule.defaults) :=
  .recursive fun _ _ h => h.elementBody

end Script.Parser

namespace Script

open Script.Parser

/-! ### Programs -/

structure Outcome.Alike (a b : Outcome) : Prop where
  elements : a.elements.map Element.unplaced = b.elements.map Element.unplaced
  noted : a.noted.map Fault.kind = b.noted.map Fault.kind
  fatal : a.fatal?.map Fault.kind = b.fatal?.map Fault.kind

private theorem Parser.SpelledAlike.skippedLength_eq {ts us : List Token} (h : SpelledAlike ts us)
    (depth : Nat) : skippedLength depth ts = skippedLength depth us := by
  induction ts generalizing us depth with
  | nil =>
    obtain rfl := spelledAlike_nil_iff.1 h
    rfl
  | cons t ts ih =>
    obtain ⟨w, us, rfl, hw, hus⟩ := spelledAlike_cons_iff.1 h
    have his : t.is = w.is := by
      funext text
      rw [Token.is, Token.is, hw]
    rw [skippedLength, skippedLength, his]
    simp only [ih hus]

private theorem Parser.Cursor.Alike.resume {c d : Cursor} (h : c.Alike d) :
    (resume c).Alike (resume d) := by
  rw [Script.resume, Script.resume, h.2.skippedLength_eq]
  exact h.advance _

private theorem Outcome.Alike.withElement {a b : Outcome} (h : a.Alike b) {e f : Option Element}
    (hef : e.map Element.unplaced = f.map Element.unplaced) :
    (a.withElement e).Alike (b.withElement f) := by
  have hlist := congrArg Option.toList hef
  rw [Option.toList_map, Option.toList_map] at hlist
  refine ⟨?_, h.noted, h.fatal⟩
  simp only [Outcome.withElement, List.map_append, hlist, h.elements]

private theorem Outcome.Alike.withNoted {a b : Outcome} (h : a.Alike b) {e f : Fault}
    (hef : e.kind = f.kind) : (a.withNoted e).Alike (b.withNoted f) := by
  refine ⟨h.elements, ?_, h.fatal⟩
  simp only [Outcome.withNoted, List.map_cons, hef, h.noted]

/-- Reading goes the same way through tokens that are spelled alike. -/
theorem readElements_alike (recover : Bool) (n : Nat) {c d : Cursor} (h : c.Alike d) :
    (readElements Rule.defaults recover n c).Alike (readElements Rule.defaults recover n d) := by
  induction n generalizing c d with
  | zero => exact ⟨rfl, rfl, rfl⟩
  | succ n ih =>
    rw [readElements, readElements]
    rcases h.2.cases with ⟨hc, hd⟩ | ⟨t, w, ts, us, hc, hd, -, -⟩
    · rw [hc, hd]
      exact ⟨rfl, rfl, rfl⟩
    · have htwins := mirrors_element c d h
      rw [hc, hd]
      simp only [List.isEmpty_cons, Bool.false_eq_true, if_false]
      generalize (element Rule.defaults).run c = r, (element Rule.defaults).run d = s at htwins ⊢
      cases htwins with
      | @ok a b c' d' hab hde => exact (ih hde).withElement hab
      | error hkind =>
        cases recover with
        | true => exact (ih h.resume).withNoted hkind
        | false => exact ⟨rfl, rfl, congrArg some hkind⟩

theorem readProgram_alike (recover : Bool) {ts us : List Token} (h : SpelledAlike ts us) :
    (readProgram Rule.defaults recover ts).Alike (readProgram Rule.defaults recover us) := by
  rw [readProgram, readProgram, h.length_eq]
  exact readElements_alike recover _ (Cursor.alike_start h)

/-! ### What a program comes to -/

/-- What a reading came to, whatever stands where: the tree without positions and label and the kinds
of the errors passed over, or the kind of the error that ended the reading. -/
def Settings.gist :
    Except (Diagnostic SyntaxError) Parsed → Except SyntaxError (Root × List SyntaxError)
  | .error error => .error error.kind
  | .ok parsed => .ok (parsed.root.unplaced, parsed.errors.map Diagnostic.kind)

private theorem Settings.gist_parse_of_fatal {settings : Settings} {tokens : List Token}
    {fault : Fault} (source : String)
    (h : (readProgram settings.rules settings.recover tokens).fatal? = some fault) :
    gist (settings.parse tokens source) = .error fault.kind := by
  rw [parse, h]
  rfl

private theorem Settings.gist_parse_of_not_fatal {settings : Settings} {tokens : List Token}
    (source : String)
    (h : (readProgram settings.rules settings.recover tokens).fatal? = none) :
    gist (settings.parse tokens source) =
      .ok (⟨none, (readProgram settings.rules settings.recover tokens).elements.map
          Element.unplaced⟩,
        (readProgram settings.rules settings.recover tokens).noted.map Fault.kind) := by
  rw [parse, h]
  simp only [gist, Root.unplaced, Element.listUnplaced_eq_map, List.map_map]
  rfl

/-- Tokens with the same texts are read alike, wherever they stand and whatever source and label
they are said to come from: both readings succeed or both fail, with the same tree up to positions
and with errors of the same kinds in the same order. -/
theorem Settings.parse_ignores_positions (recover : Bool) {file file' : Option String}
    {verbose verbose' : Bool} {source source' : String} {ts us : List Token}
    (h : ts.map Token.value = us.map Token.value) :
    gist (parse { file, recover, verbose } ts source) =
      gist (parse { file := file', recover, verbose := verbose' } us source') := by
  obtain ⟨helements, hnoted, hfatal⟩ := readProgram_alike recover h
  rcases eq_none_or_some_of_map_eq hfatal with ⟨hts, hus⟩ | ⟨fault, fault', hts, hus, hkind⟩
  · rw [gist_parse_of_not_fatal source hts, gist_parse_of_not_fatal source' hus,
      helements, hnoted]
  · rw [gist_parse_of_fatal source hts, gist_parse_of_fatal source' hus, hkind]

/-- A statement that is passed over and a declaration, on one line or upside down. -/
theorem Settings.parse_ignores_positions_upsideDown :
    let ts : List Token :=
      [⟨⟨0, 0⟩, "5"⟩, ⟨⟨0, 1⟩, ";"⟩, ⟨⟨0, 3⟩, "int"⟩, ⟨⟨0, 7⟩, "x"⟩, ⟨⟨0, 9⟩, "="⟩, ⟨⟨0, 11⟩, "y"⟩,
        ⟨⟨0, 12⟩, ";"⟩]
    let us : List Token :=
      [⟨⟨9, 9⟩, "5"⟩, ⟨⟨8, 1⟩, ";"⟩, ⟨⟨7, 3⟩, "int"⟩, ⟨⟨7, 3⟩, "x"⟩, ⟨⟨6, 0⟩, "="⟩, ⟨⟨0, 0⟩, "y"⟩,
        ⟨⟨0, 0⟩, ";"⟩]
    ts.map Token.value = us.map Token.value ∧
      gist (parse { file := "a", recover := true } ts "5; int x = y;") =
        .ok (⟨none, [.declaration ⟨"x", false, {}, .variable "int" (some (.reference ⟨"y", {}⟩))⟩]⟩,
          [.unexpectedToken "5"]) ∧
      gist (parse { file := "a", recover := true } ts "5; int x = y;") =
        gist (parse { recover := true, verbose := true } us "") :=
  ⟨rfl, rfl, parse_ignores_positions true rfl⟩

end Script
