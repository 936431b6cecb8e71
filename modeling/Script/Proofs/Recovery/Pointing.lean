import Script.Proofs.Grammar.Failing
/-!
# What errors point at

Every error comes from an element that is malformed. It points at a token of the element, or at one
behind it, and what it quotes is the text of this token. Only where no token is left it points at
the end of the last one.
-/

namespace Script

open Script.Parser Script.Grammar

variable {rules : List Rule} {recover : Bool} {tokens : List Token}

def Outcome.Tells (outcome : Outcome) (fault : Fault) : Prop :=
  outcome.fatal? = some fault ∨ fault ∈ outcome.noted

/-- The error ends the reading or is passed over. -/
def Settings.Reports (settings : Settings) (tokens : List Token) (source : String)
    (error : Diagnostic SyntaxError) : Prop :=
  settings.parse tokens source = .error error ∨
    ∃ parsed, settings.parse tokens source = .ok parsed ∧ error ∈ parsed.errors

/-- An error of an element that begins at the index points at a token from there on, whose text it
may quote; or the element goes on to the end of the tokens, and the error points at this end. -/
inductive PointsFrom (tokens : List Token) (s : Nat) (error : Diagnostic SyntaxError) : Prop
  | token {i : Nat} {t : Token} (hi : s ≤ i) (ht : tokens[i]? = some t)
      (hposition : error.position = t.position)
      (hquoted : ∀ text, error.kind.quoted? = some text → text = t.value)
  | exhausted {last : Token}
      (hend : (element Rule.defaults).stop (.behind tokens s) = .behind tokens tokens.length)
      (hlast : tokens.getLast? = some last) (hposition : error.position = last.endPosition)
      (hquoted : error.kind.quoted? = none)

/-! ### Where errors come from -/

/-- Every fault is found in an element that begins where reading gets to. -/
theorem ReadsTo.exists_run {c : Cursor} {outcome : Outcome} {fault : Fault}
    (h : ReadsTo rules recover c outcome) (hc : BetweenElements rules recover tokens c)
    (hfault : outcome.Tells fault) :
    ∃ d, BetweenElements rules recover tokens d ∧ d.rest ≠ [] ∧
      (element rules).run d = .error fault := by
  induction h with
  | finished _ => rcases hfault with hfault | hfault <;> cases hfault
  | read _ hrun _ ih => exact ih (hc.read hrun) hfault
  | @noted c noted outcome hne hrecover hrun _ ih =>
    rcases hfault with hfault | hfault
    · exact ih (hc.resumed hrecover hrun) (.inl hfault)
    · rcases List.mem_cons.1 hfault with rfl | hfault
      · exact ⟨c, hc, hne, hrun⟩
      · exact ih (hc.resumed hrecover hrun) (.inr hfault)
  | ended hne _ hrun =>
    rcases hfault with hfault | hfault
    · cases hfault
      exact ⟨_, hc, hne, hrun⟩
    · cases hfault

theorem Settings.Reports.exists_fault {settings : Settings} {source : String}
    {error : Diagnostic SyntaxError} (h : settings.Reports tokens source error) :
    ∃ fault, (readProgram settings.rules settings.recover tokens).Tells fault ∧
      settings.diagnose source fault = error := by
  rcases h with h | ⟨parsed, h, herror⟩
  · obtain ⟨fault, hfault, hdiagnose⟩ := parse_eq_error_iff.1 h
    exact ⟨fault, .inl hfault, hdiagnose⟩
  · obtain ⟨-, rfl⟩ := parse_eq_ok_iff.1 h
    obtain ⟨fault, hfault, hdiagnose⟩ := List.mem_map.1 herror
    exact ⟨fault, .inr hfault, hdiagnose⟩

theorem Settings.diagnose_of_origin (settings : Settings) (source : String) {fault : Fault}
    (h : fault.origin? = none) :
    settings.diagnose source fault =
      ⟨fault.kind, fault.position, String.ofList (Text.withoutReturns source), settings.file⟩ := by
  rw [diagnose, h]
  rfl

/-! ### What they point at -/

private theorem Parser.Cursor.Passes.exists_behind {s : Nat} {ts : List Token} {d : Cursor}
    (h : (behind tokens s).Passes ts d) (hs : s ≤ tokens.length) :
    ∃ i, s ≤ i ∧ i ≤ tokens.length ∧ d = behind tokens i := by
  have hlength := congrArg List.length h.rest_eq
  rw [length_rest_behind, List.length_append] at hlength
  exact ⟨s + ts.length, by omega, by omega, h.eq_advance⟩

theorem pointsFrom_of_run {s : Nat} (hs : s < tokens.length) {fault : Fault}
    (h : (element Rule.defaults).run (.behind tokens s) = .error fault)
    {error : Diagnostic SyntaxError} (hkind : error.kind = fault.kind)
    (hposition : error.position = fault.position) : PointsFrom tokens s error := by
  obtain ⟨ts, d, hd, -, hblamed, hend⟩ := failsWithin_element _ (Nat.le_refl _) fault h
  obtain ⟨i, hi, hle, rfl⟩ := hd.exists_behind (Nat.le_of_lt hs)
  rw [hblamed.position_eq] at hposition
  -- the fault lies at a token, or at the end behind the last one
  cases ht : tokens[i]? with
  | some t =>
    rw [Cursor.position_behind ht] at hposition
    refine .token hi ht hposition fun text htext => ?_
    rw [hkind] at htext
    obtain ⟨t', ht', hvalue⟩ := startsWith_eq_true_iff.1 (hblamed.startsWith_of_quoted text htext)
    obtain rfl := Option.some.inj (ht.symm.trans (List.head?_drop.symm.trans ht'))
    exact hvalue.symm
  | none =>
    obtain rfl : i = tokens.length := Nat.le_antisymm hle (List.getElem?_eq_none_iff.1 ht)
    have hne : tokens ≠ [] := List.ne_nil_of_length_pos (Nat.zero_lt_of_lt hs)
    have hlast := List.getLast?_eq_some_getLast hne
    have hrest : (Cursor.behind tokens tokens.length).rest = [] := List.drop_length
    rw [Cursor.position_behind_of_length_le (Nat.le_refl _) hlast] at hposition
    refine .exhausted (hend hrest) hlast hposition (Option.eq_none_iff_forall_ne_some.2 ?_)
    intro text htext
    rw [hkind] at htext
    have hstarts := hblamed.startsWith_of_quoted text htext
    rw [hrest] at hstarts
    cases hstarts

/-- Every error of the parser comes from an element that is malformed. Whichever it is, the error
points at one of its tokens, or at one behind them, and quotes this token if it quotes anything; or
the tokens are used up, and it points at their end. It is told with the label that was set, and with
the source without carriage returns. -/
theorem Settings.parse_points (file : Option String) (recover verbose : Bool)
    {tokens : List Token} {source : String} {error : Diagnostic SyntaxError}
    (h : Reports { file, recover, verbose } tokens source error) :
    ∃ fault : Fault,
      error = ⟨fault.kind, fault.position, String.ofList (Text.withoutReturns source), file⟩ ∧
      (∃ s < tokens.length, BetweenElements Rule.defaults recover tokens (.behind tokens s) ∧
        (element Rule.defaults).run (.behind tokens s) = .error fault) ∧
      ∀ s < tokens.length, (element Rule.defaults).run (.behind tokens s) = .error fault →
        PointsFrom tokens s error := by
  obtain ⟨fault, hfault, rfl⟩ := h.exists_fault
  obtain ⟨c, hc, hne, hrun⟩ := (readsTo_readFrom _ _ _).exists_run .start hfault
  obtain ⟨s, hs, rfl⟩ := hc.exists_behind
  have hlt : s < tokens.length := by
    have hpos := List.length_pos_iff.2 hne
    rw [Cursor.length_rest_behind] at hpos
    omega
  obtain ⟨_, _, _, _, hblamed, _⟩ := failsWithin_element _ (Nat.le_refl _) fault hrun
  have hdiagnose := diagnose_of_origin { file, recover, verbose } source hblamed.origin_eq
  refine ⟨fault, hdiagnose, ⟨s, hlt, hc, hrun⟩, fun r hr hrun => ?_⟩
  rw [hdiagnose]
  exact pointsFrom_of_run hr hrun rfl rfl

/-- An error that quotes its token, and one at the end of a call that is not closed. -/
theorem Settings.parse_points_twice :
    let tokens : List Token :=
      [⟨⟨0, 0⟩, "x"⟩, ⟨⟨0, 2⟩, "5"⟩, ⟨⟨0, 3⟩, ";"⟩, ⟨⟨1, 0⟩, "f"⟩, ⟨⟨1, 1⟩, "("⟩]
    let source := "x 5;\r\nf("
    ∃ root a b, parse { file := some "a", recover := true } tokens source = .ok ⟨root, [a, b]⟩ ∧
      a.kind = .invalidIdentifier "5" .leadingDigit ∧ a.position = ⟨0, 2⟩ ∧
      b.kind = .unexpectedEnd ∧ b.position = ⟨1, 2⟩ ∧
      ∀ error ∈ [a, b], ∃ fault : Fault,
        error = ⟨fault.kind, fault.position, String.ofList (Text.withoutReturns source), "a"⟩ ∧
        (∃ s < tokens.length, BetweenElements Rule.defaults true tokens (.behind tokens s) ∧
          (element Rule.defaults).run (.behind tokens s) = .error fault) ∧
        ∀ s < tokens.length, (element Rule.defaults).run (.behind tokens s) = .error fault →
          PointsFrom tokens s error := by
  intro tokens source
  have hparse : parse { file := some "a", recover := true } tokens source =
    .ok ⟨_, [_, _]⟩ := rfl
  refine ⟨_, _, _, hparse, rfl, rfl, rfl, rfl, fun error herror => ?_⟩
  exact parse_points (some "a") true false (.inr ⟨_, hparse, herror⟩)

end Script
