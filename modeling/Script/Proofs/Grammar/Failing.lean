import Script.Proofs.Grammar.Soundness
import Script.Proofs.Parser.Failing
import Script.Proofs.Recovery.Unended
/-!
# Where phrases fail

Where a phrase is malformed, the fault lies behind tokens that the phrase could have gone on with,
and it lies at a token that is left, or at the end. There is one lemma for each production, along
the same branches as for what is read.
-/

namespace Script

open Script.Parser

namespace Literal

variable {value : String} {kind : SyntaxError}

private theorem quoted?_of_number (h : number value = .error kind) : kind.quoted? = some value := by
  rcases number_eq_error_cases h with ⟨-, rfl⟩ | ⟨-, rfl⟩
  · rfl
  · rfl

private theorem quoted?_of_read (h : read value = .error kind) : kind.quoted? = some value := by
  rw [read] at h
  split at h
  · cases h
    rfl
  · split at h
    · cases h
    · split at h
      · exact quoted?_of_number h
      · split at h <;> cases h
        rfl

theorem quoted?_of_ofToken {token : Token} (h : ofToken token = .error kind) :
    kind.quoted? = some token.value := by
  rw [ofToken] at h
  split at h
  · cases h
  · next hread =>
    cases h
    exact quoted?_of_read hread

end Literal

namespace Grammar

variable {n : Nat} {c d : Cursor}

theorem Tame.failsAt {α : Type} {ts : List Token} (h : Tame ts) {p : Parser α}
    (hp : FailsAt d p Unended) : FailsAt d p fun us => Unended (ts ++ us) :=
  hp.mono fun _ => h.unended_append

private theorem Tame.failsAt_cons {α : Type} {ts : List Token} {t : Token} (h : Tame (ts ++ [t]))
    {p : Parser α} (hp : FailsAt d p Unended) : FailsAt d p fun us => Unended (ts ++ t :: us) :=
  hp.mono fun us hus => by
    rw [List.append_cons]
    exact h.unended_append hus

theorem Mild.failsAt {α : Type} {t : Token} (h : Mild t) {p : Parser α}
    (hp : FailsAt d p Unended) : FailsAt d p fun us => Unended (t :: us) :=
  (tame_singleton h).failsAt hp

theorem failsAt_unended {α : Type} {p : Parser α} (h : FailsAt c p (· = [])) :
    FailsAt c p Unended := by
  refine h.mono ?_
  rintro _ rfl
  exact unended_nil

/-! ### Types and lists -/

private theorem failsWithin_suffixes : FailsWithin n (recursive suffixesBody) fun _ => False := by
  refine .recursive progressive_suffixesBody fun c _ hmore => ?_
  refine .bind_accept (fun t d _ hd => ?_) fun _ => .bind_upcoming ?_
  · exact (hmore _ hd.length_lt d (Nat.le_refl _)).bind_pure _
  · split
    · next hs =>
      obtain ⟨left, right, rest, hc, -, -⟩ := exists_brackets hs
      refine .bind_skip hc fun d hd => ?_
      exact (hmore _ hd.length_lt d (Nat.le_refl _)).bind_pure _
    · exact failsAt_pure _

theorem failsAt_typeName : FailsAt c typeName (· = []) := by
  refine .bind_identifier rfl fun t d _ _ => ?_
  exact ((failsWithin_suffixes d (Nat.le_refl _)).bind_pure _).mono fun _ => False.elim

private theorem failsAt_parameter : FailsAt c parameter Unended := by
  refine .bind_stays (run_here c) ?_
  refine (failsAt_unended failsAt_typeName).bind (spells_typeName c) fun ts type d _ ht => ?_
  exact (tame_of_mild ht.mild).failsAt ((failsAt_identifier unended_nil).bind_pure _)

section

variable {α : Type} {p : Parser α} {item : List Token → α → Prop}

/-- A list fails in one of its items, or where it goes on neither with a comma nor with the closing
parenthesis. -/
theorem failsWithin_items (hp : FailsWithin n p Unended) (hitem : Spells p item)
    (hunended : ∀ ts a, item ts a → Unended ts)
    (htame : ∀ ts a sign, item ts a → sign.value = "," → Tame (ts ++ [sign])) :
    FailsWithin n (recursive (itemsBody p)) Unended := by
  refine .recursive (progressive_itemsBody p) fun c hc hmore => ?_
  refine (hp c hc).bind (hitem c) fun ts a d hd ha => .bind_accept (fun comma e hv he => ?_) ?_
  · have hlt := Nat.lt_of_lt_of_le he.length_lt hd.length_le
    exact (htame ts a comma ha hv).failsAt_cons ((hmore _ hlt e (Nat.le_refl _)).bind_pure _)
  · refine fun _ => .bind_expect ?_ fun right e _ _ => failsAt_pure _
    rw [List.append_nil]
    exact hunended ts a ha

theorem failsAt_parenthesized (hp : FailsWithin n p Unended) (hitem : Spells p item)
    (hunended : ∀ ts a, item ts a → Unended ts)
    (htame : ∀ ts a sign, item ts a → sign.value = "," → Tame (ts ++ [sign]))
    (hc : c.rest.length ≤ n) : FailsAt c (Parser.parenthesized p) Unended := by
  have hitems := failsWithin_items hp hitem hunended htame
  refine .bind_expect unended_nil fun left d hl hd => ?_
  refine (mild_of_eq hl (by decide)).failsAt (.bind_accept ?_ fun _ => ?_)
  · exact fun right e _ _ => failsAt_pure _
  · exact hitems d (Nat.le_trans hd.length_le hc)

end

private theorem failsAt_parameters : FailsAt c (parenthesized parameter) Unended := by
  refine failsAt_parenthesized (fun _ _ => failsAt_parameter) spells_parameter ?_ ?_
    (Nat.le_refl _)
  · exact fun ts p hp => (tame_of_mild hp.mild).unended
  · intro ts p comma hp hc
    exact (tame_of_mild hp.mild).append (tame_singleton (mild_of_eq hc (by decide)))

/-! ### Values -/

/-- The rule for counting claims nothing that it could not read. -/
theorem failsAt_bind_byRule {α : Type} {valuesOnly : Bool} {f : Option Element → Parser α}
    {R : List Token → Prop} (hnone : FailsAt c (f none) R)
    (hstep : ∀ d v, FailsAt d (f (some (.value v))) fun _ => False) :
    FailsAt c (byRule Rule.defaults valuesOnly >>= f) R := by
  cases ha : Rule.stepApplies c.rest with
  | false => exact .bind_stays (run_byRule_of_not ha) hnone
  | true =>
    obtain ⟨ts, v, rest, hrest, hs⟩ := exists_step_of_stepApplies ha
    have hread := hs.reads valuesOnly c _ (Cursor.passes_advance hrest) trivial
    intro fault hrun
    rw [run_bind_of_ok _ hread] at hrun
    obtain ⟨_, _, _, hfalse, _⟩ := hstep _ v fault hrun
    exact hfalse.elim

private theorem failsAt_atom : FailsAt c atom Unended := by
  refine .bind_token_of_blamed unended_nil fun t d fault hd hrun => ?_
  split at hrun
  · simp at hrun
  · next kind hkind =>
    split at hrun
    · simp at hrun
    · cases hrun
      refine hd.blamed fun text htext => ?_
      rw [Literal.quoted?_of_ofToken hkind] at htext
      exact Option.some.inj htext

section

variable (hinner : ∀ k < c.rest.length, FailsWithin k (expression Rule.defaults) Unended)

include hinner

private theorem failsAt_call : FailsAt c (call (expression Rule.defaults)) Unended := by
  refine .bind_identifier unended_nil fun name d hn hd => ?_
  have harguments := failsAt_parenthesized (hinner _ hd.length_lt) spells_expression
    (fun _ _ h => h.unended) (fun _ _ _ h hs => h.tame (.inr hs)) (Nat.le_refl _)
  exact (Word.mild hn).failsAt (harguments.bind_pure _)

private theorem failsAt_plain : FailsAt c (plain (expression Rule.defaults)) Unended := by
  refine .bind_upcoming ?_
  cases hc : c.rest with
  | nil => exact failsAt_fail nofun unended_nil
  | cons token rest =>
    simp only
    split
    · next hl =>
      have hmild := mild_of_eq (Token.is_iff.1 hl) (by decide)
      refine FailsAt.bind_skip_one hc fun d hd => hmild.failsAt ?_
      refine (hinner _ hd.length_lt d (Nat.le_refl _)).bind (spells_expression d) ?_
      refine fun ts v e _ hv => .bind_expect ?_ fun right f _ _ => failsAt_pure _
      rw [List.append_nil]
      exact hv.unended
    · split
      · exact failsAt_call hinner
      · exact failsAt_atom

end

private theorem failsWithin_expression : FailsWithin n (expression Rule.defaults) Unended := by
  refine .recursive (progressive_expressionBody _) fun c _ hinner => ?_
  exact failsAt_bind_byRule (failsAt_plain hinner) fun d v => failsAt_pure v

private theorem failsAt_finish : FailsAt c finish (· = []) := by
  refine .bind_stays (run_previous c) ?_
  split
  · exact failsAt_pure _
  · exact failsAt_expect rfl

theorem failsAt_valueStatement : FailsAt c (valueStatement Rule.defaults) Unended := by
  refine (failsWithin_expression c (Nat.le_refl _)).bind (spells_expression c) ?_
  intro ts v d _ hv
  refine (failsAt_finish.bind_pure _).mono ?_
  rintro _ rfl
  rw [List.append_nil]
  exact hv.unended

private theorem failsAt_initializer (constant : Bool) :
    FailsAt c (initializer Rule.defaults constant) Unended := by
  rw [initializer_eq]
  refine .bind_sees ?_
  split
  · split
    · exact failsAt_fail nofun unended_nil
    · exact (failsAt_skip 1).bind_pure _
  · refine .bind_expect unended_nil fun equals d he _ => ?_
    exact (mild_of_eq he (by decide)).failsAt (failsAt_valueStatement.bind_pure _)

/-! ### Declarations -/

private theorem mild_of_isModifier {t : Token} (h : isModifier t = true) : Mild t :=
  mild_of_eq_or (isModifier_iff.1 h) (by decide) (by decide)

private theorem failsAt_modifiersBehind {tokens : List Token} (seen : Modifiers)
    (hc : c.rest = tokens) : FailsAt c (modifiersBehind seen tokens) Unended := by
  induction tokens generalizing seen c with
  | nil => exact failsAt_pure seen
  | cons token rest ih =>
    rw [modifiersBehind]
    split
    · next hmodifier =>
      split
      · refine .bind_skip_one hc fun d hd => (mild_of_isModifier hmodifier).failsAt (ih _ ?_)
        exact (List.cons.inj (hc.symm.trans hd.rest_eq)).2.symm
      · -- a modifier that is repeated is blamed where it stands
        refine failsAt_fail (fun text htext => ?_) unended_nil
        rw [hc]
        exact startsWith_cons_eq_true (Option.some.inj htext)
    · exact failsAt_pure seen

private theorem failsAt_modifiers : FailsAt c modifiers Unended :=
  .bind_upcoming (failsAt_modifiersBehind _ rfl)

private theorem spells_modifiers : Spells modifiers Modified := by
  intro c m d hrun
  obtain ⟨ms, hms, hm, -⟩ := run_modifiers_eq_ok hrun
  exact ⟨ms, hms, hm⟩

private theorem failsWithin_block (h : FailsWithin n (element Rule.defaults) Unended) :
    FailsWithin n (recursive (blockBody (element Rule.defaults))) Unclosed := by
  refine .recursive (progressive_blockBody (advances_element _)) fun c hc hmore => ?_
  refine .bind_upcoming ?_
  cases hrest : c.rest with
  | nil => exact failsAt_fail nofun unended_nil.unclosed
  | cons token rest =>
    simp only
    split
    · exact (failsAt_skip 1).bind_pure _
    · have hpos : 0 < c.rest.length := by simp [hrest]
      refine ((h c hc).mono fun _ => Unended.unclosed).bind (spellsAt_element hpos) ?_
      intro ts element? d hd hs
      obtain ⟨first, us, rfl, -⟩ := hs.exists_first
      refine ((hmore _ hd.length_lt d (Nat.le_refl _)).bind_pure _).mono fun us hus => ?_
      exact hs.balanced.append_unclosed hus

section

variable (hinner : ∀ k < c.rest.length, FailsWithin k (element Rule.defaults) Unended)

include hinner

theorem failsAt_function (exported : Bool) (position : Position) :
    FailsAt c (function (element Rule.defaults) exported position) Unended := by
  refine .bind_expect unended_nil fun func d hf hd => ?_
  refine (mild_of_eq hf (by decide)).failsAt ?_
  refine .bind_identifier unended_nil fun name e hn he => (Word.mild hn).failsAt ?_
  refine failsAt_parameters.bind (spells_parenthesized spells_parameter e) fun ps _ f hps hp => ?_
  refine (tame_of_mild (hp.mild fun _ _ h => h.mild)).failsAt ?_
  refine (failsAt_unended failsAt_typeName).bind (spells_typeName f) fun ts _ g hts ht => ?_
  refine (tame_of_mild ht.mild).failsAt (.bind_expect unended_nil fun left k hl hk => ?_)
  -- the elements of the body begin behind the keyword, so they may be read by inner rounds
  have hlt : k.rest.length < c.rest.length :=
    (hd.append (he.append (hps.append (hts.append hk)))).length_lt
  have hbody := failsWithin_block (hinner _ hlt) k (Nat.le_refl _)
  exact (hbody.bind_pure _).mono fun us hus => hus.unended hl

private theorem failsAt_declaration :
    FailsAt c (declaration Rule.defaults (element Rule.defaults)) Unended := by
  refine .bind_stays (run_here c) (failsAt_modifiers.bind (spells_modifiers c) ?_)
  intro ms m d hms hm
  refine (tame_of_mild hm.mild).failsAt (.bind_sees ?_)
  split
  · split
    · exact failsAt_fail nofun unended_nil
    · exact failsAt_function (fun k hk => hinner k (Nat.lt_of_lt_of_le hk hms.length_le)) _ _
  · refine (failsAt_unended failsAt_typeName).bind (spells_typeName d) fun ts type e _ ht => ?_
    refine (tame_of_mild ht.mild).failsAt ?_
    refine .bind_identifier unended_nil fun name f hn _ => (Word.mild hn).failsAt ?_
    exact (failsAt_initializer m.constant).bind_pure _

/-! ### Elements -/

private theorem failsAt_statement {token : Token} {rest : List Token}
    (hc : c.rest = token :: rest) :
    FailsAt c (statement Rule.defaults (element Rule.defaults) token rest) Unended := by
  have hquoted : ∀ {kind : SyntaxError}, kind.quoted? = some token.value →
      FailsAt c (fail kind : Parser Element) Unended := by
    intro kind hkind
    refine failsAt_fail (fun text htext => ?_) unended_nil
    rw [hc]
    exact startsWith_cons_eq_true (Option.some.inj (hkind.symm.trans htext))
  unfold Parser.statement
  simp only
  split
  · next hreturn =>
    rw [returning_eq]
    simp only [bind_assoc, pure_bind]
    refine .bind_token unended_nil fun word d hword => ?_
    obtain ⟨hhead, -⟩ := Cursor.passes_cons_iff.1 hword
    obtain rfl : token = word := by simpa [hc] using hhead
    have hmild := mild_of_eq (returns_iff.1 hreturn) (by decide)
    exact hmild.failsAt (failsAt_valueStatement.bind_pure _)
  · split
    · exact hquoted rfl
    · split
      · exact failsAt_valueStatement.bind_pure _
      · split
        · exact (failsAt_declaration hinner).bind_pure _
        · split
          · exact (failsAt_function hinner _ _).bind_pure _
          · split
            · rw [assignment_eq]
              simp only [bind_assoc, pure_bind]
              refine .bind_identifier unended_nil fun name d hn _ => (Word.mild hn).failsAt ?_
              refine .bind_expect unended_nil fun equals e he _ => ?_
              exact (mild_of_eq he (by decide)).failsAt (failsAt_valueStatement.bind_pure _)
            · exact hquoted rfl

end

/-- Where an element is malformed, it is so behind tokens that did not end it, if no step among them
stands inside of parentheses. -/
theorem failsWithin_element : FailsWithin n (element Rule.defaults) Unended := by
  refine .recursive (progressive_elementBody _) fun c _ hinner => .bind_upcoming ?_
  cases hc : c.rest with
  | nil => exact failsAt_pure _
  | cons token rest =>
    simp only
    split
    · exact (failsAt_skip 1).bind_pure _
    · refine failsAt_bind_byRule ?_ fun d v => failsAt_pure _
      exact (failsAt_statement hinner hc).bind_pure _

end Grammar

end Script
