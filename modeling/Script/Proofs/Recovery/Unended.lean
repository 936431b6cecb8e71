import Script.Proofs.Recovery.Shape
/-!
# Statements that have not ended

As long as a statement can go on, no token before the last one has ended it. There is one exception:
a step takes its semicolon with it wherever a value is due, so also inside of parentheses. Of tokens
that have such a step inside of them nothing is said here.
-/

namespace Script.Grammar

open Script.Parser

/-- A step stands inside of parentheses: what follows it closes them, or begins another argument. -/
def StepInside (tokens : List Token) : Prop :=
  ∃ ahead step v sign behind, tokens = ahead ++ (step ++ sign :: behind) ∧ Step step v ∧
    (sign.value = ")" ∨ sign.value = ",")

/-- Nothing but the last token may end the statement that begins with these tokens. -/
structure Pending (ts : List Token) : Prop where
  nested : Nested ts
  last_of_syncPoint : ∀ j, SyncPoint 0 ts j → j + 1 = ts.length

def Tame (ts : List Token) : Prop := StepInside ts ∨ ∀ t ∈ ts, Mild t

/-- The statement that begins with these tokens may go on, but for steps inside of parentheses. -/
def Unended (ts : List Token) : Prop := StepInside ts ∨ Pending ts

def Unclosed (ts : List Token) : Prop := StepInside ts ∨ Nested ts

theorem StepInside.of_infix {ts us : List Token} (h : StepInside ts) (hts : ts <:+: us) :
    StepInside us := by
  obtain ⟨ahead, step, v, sign, behind, rfl, hstep, hs⟩ := h
  obtain ⟨before, after, rfl⟩ := hts
  exact ⟨before ++ ahead, step, v, sign, behind ++ after, by simp, hstep, hs⟩

theorem StepInside.append_left (ts : List Token) {us : List Token} (h : StepInside us) :
    StepInside (ts ++ us) :=
  h.of_infix (List.suffix_append ts us).isInfix

theorem StepInside.append_right {ts : List Token} (h : StepInside ts) (us : List Token) :
    StepInside (ts ++ us) :=
  h.of_infix (List.prefix_append ts us).isInfix

/-! ### Pending statements -/

private theorem nested_nil : Nested [] := balanced_nil.closed_le

private theorem pending_nil : Pending [] where
  nested := nested_nil
  last_of_syncPoint _ hj := absurd hj.lt_length (Nat.not_lt_zero _)

private theorem Pending.append {ts us : List Token} (hts : ∀ t ∈ ts, Mild t) (h : Pending us) :
    Pending (ts ++ us) where
  nested :=
    (balanced_of_no_brace fun t ht => ⟨(hts t ht).1, (hts t ht).2.1⟩).append_nested h.nested
  last_of_syncPoint j hj := by
    obtain ⟨i, rfl, hi⟩ := exists_syncPoint_of_append hts hj
    rw [List.length_append, ← h.last_of_syncPoint i hi, Nat.add_assoc]

private theorem pending_semicolon {semicolon : Token} (he : semicolon.value = ";") :
    Pending [semicolon] where
  nested := (balanced_of_no_brace (by simp [he])).closed_le
  last_of_syncPoint j hj := by
    have hlt := hj.lt_length
    rw [List.length_singleton] at hlt ⊢
    omega

private theorem Nested.pending {left : Token} {us : List Token} (hl : left.value = "\x7b")
    (h : Nested us) : Pending (left :: us) where
  nested ws hws := by
    rcases List.prefix_cons_iff.1 hws with rfl | ⟨vs, rfl, hvs⟩
    · exact Nat.le_refl 0
    · have hle := h vs hvs
      simp only [opened_cons, closed_cons, Token.is, hl]
      simp only [String.reduceBEq, Bool.false_eq_true, if_false, if_true]
      omega
  last_of_syncPoint j hj := absurd hj (Nested.not_syncPoint_block hl h j)

/-! ### What goes on -/

theorem tame_of_mild {ts : List Token} (h : ∀ t ∈ ts, Mild t) : Tame ts := .inr h

theorem tame_singleton {t : Token} (ht : Mild t) : Tame [t] :=
  tame_of_mild (List.forall_mem_singleton.2 ht)

theorem Tame.append {ts us : List Token} (h : Tame ts) (h' : Tame us) : Tame (ts ++ us) := by
  rcases h with h | h
  · exact .inl (h.append_right us)
  · rcases h' with h' | h'
    · exact .inl (h'.append_left ts)
    · exact .inr (List.forall_mem_append.2 ⟨h, h'⟩)

theorem Tame.cons {t : Token} {ts : List Token} (ht : Mild t) (h : Tame ts) : Tame (t :: ts) :=
  (tame_singleton ht).append h

theorem Tame.unended_append {ts us : List Token} (h : Tame ts) (h' : Unended us) :
    Unended (ts ++ us) := by
  rcases h with h | h
  · exact .inl (h.append_right us)
  · rcases h' with h' | h'
    · exact .inl (h'.append_left ts)
    · exact .inr (h'.append h)

theorem unended_nil : Unended [] := .inr pending_nil

private theorem Unended.cons {t : Token} {us : List Token} (ht : Mild t) (h : Unended us) :
    Unended (t :: us) :=
  (tame_singleton ht).unended_append h

theorem Tame.unended {ts : List Token} (h : Tame ts) : Unended ts := by
  have happend := h.unended_append unended_nil
  rwa [List.append_nil] at happend

theorem Unended.unclosed {ts : List Token} (h : Unended ts) : Unclosed ts :=
  h.imp_right Pending.nested

theorem Balanced.append_unclosed {ts us : List Token} (h : Balanced ts) (h' : Unclosed us) :
    Unclosed (ts ++ us) :=
  h'.imp (StepInside.append_left ts) h.append_nested

theorem Unclosed.unended {left : Token} {us : List Token} (hl : left.value = "\x7b")
    (h : Unclosed us) : Unended (left :: us) :=
  h.imp (StepInside.append_left [left]) (Nested.pending hl)

/-! ### Values -/

private theorem Step.unended {ts : List Token} {v : Value} (h : Step ts v) : Unended ts := by
  have hsign : ∀ {sign : Token}, sign.value = "++" ∨ sign.value = "--" → Mild sign := fun hs =>
    mild_of_eq_or hs (by decide) (by decide)
  cases h with
  | before hs hn he => exact .cons (hsign hs) (.cons hn.mild (.inr (pending_semicolon he)))
  | behind hn hs he => exact .cons hn.mild (.cons (hsign hs) (.inr (pending_semicolon he)))

mutual

theorem Expression.tame {ts : List Token} {v : Value} {sign : Token}
    (hs : sign.value = ")" ∨ sign.value = ",") : Expression ts v → Tame (ts ++ [sign])
  | .step h => .inl ⟨[], ts, v, sign, [], rfl, h, hs⟩
  | .plain h => h.tame.append (tame_singleton (mild_of_eq_or hs (by decide) (by decide)))

private theorem Plain.tame {ts : List Token} {v : Value} : Plain ts v → Tame ts
  | .group hl h hr => .cons (mild_of_eq hl (by decide)) (h.tame (.inl hr))
  | .call hn h => .cons hn.mild (Parenthesized.tame h)
  | .literal h => tame_singleton (mild_of_notMem_signs (notMem_signs_of_literal h))
  | .reference _ hw => tame_singleton hw.mild

theorem Parenthesized.tame {ts : List Token} {vs : List Value} :
    Parenthesized Expression ts vs → Tame ts
  | .none hl hr => .cons (mild_of_eq hl (by decide)) (tame_singleton (mild_of_eq hr (by decide)))
  | .some hl h => .cons (mild_of_eq hl (by decide)) (Items.tame h)

theorem Items.tame {ts : List Token} {vs : List Value} : Items Expression ts vs → Tame ts
  | .last h hr => h.tame (.inl hr)
  | .more h hc hs => by
    have hboth := (h.tame (.inr hc)).append (Items.tame hs)
    rwa [List.append_assoc] at hboth

end

theorem Expression.unended {ts : List Token} {v : Value} (h : Expression ts v) : Unended ts := by
  cases h with
  | step h => exact h.unended
  | plain h => exact h.tame.unended

/-! ### What is skipped -/

/-- Where a statement is skipped, all tokens are skipped behind which it could go on. -/
theorem Unended.length_le_skippedLength {ts : List Token} (h : Unended ts) (rest : List Token)
    (hsteps : ¬StepInside ts) : ts.length ≤ skippedLength 0 (ts ++ rest) := by
  have hpending := h.resolve_left hsteps
  refine le_skippedLength (by simp) fun j hj => ?_
  by_cases hlt : j < ts.length
  · exact Nat.le_of_eq (hpending.last_of_syncPoint j ((syncPoint_append_iff hlt).1 hj)).symm
  · omega

end Script.Grammar
