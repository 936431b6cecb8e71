import Script.Proofs.Parser.Bounds
import Script.Proofs.Parser.Passing
/-!
# Where a parser fails

A fault is found at a cursor. The tokens that were passed up to there stand between the cursor that
the parser began at and this one, as the tokens that it reads do when it succeeds. A text that the
fault quotes is the one of the token behind.
-/

namespace Script.Parser

variable {α β : Type}

/-- The fault lies at the cursor. If it quotes a text, this is the text of the token there. -/
structure Cursor.Blamed (d : Cursor) (fault : Fault) : Prop where
  origin_eq : fault.origin? = none
  position_eq : fault.position = d.position
  startsWith_of_quoted : ∀ text, fault.kind.quoted? = some text → startsWith d.rest text = true

/-- Where the parser fails at the cursor, the tokens up to the fault are such tokens. If these are
all tokens that are left, the parser has used them up. -/
def FailsAt (c : Cursor) (p : Parser α) (R : List Token → Prop) : Prop :=
  ∀ fault, p.run c = .error fault →
    ∃ tokens d, c.Passes tokens d ∧ R tokens ∧ d.Blamed fault ∧ (d.rest = [] → p.stop c = d)

def FailsWithin (n : Nat) (p : Parser α) (R : List Token → Prop) : Prop :=
  ∀ c : Cursor, c.rest.length ≤ n → FailsAt c p R

section

variable {n : Nat} {c : Cursor} {p : Parser α} {f : α → Parser β} {R S : List Token → Prop}

theorem FailsAt.mono (h : FailsAt c p R) (hRS : ∀ tokens, R tokens → S tokens) :
    FailsAt c p S := by
  intro fault hrun
  obtain ⟨tokens, d, hd, hR, hblamed⟩ := h fault hrun
  exact ⟨tokens, d, hd, hRS tokens hR, hblamed⟩

/-- A sequence fails where its first part fails, or its second part behind what the first reads. -/
theorem FailsAt.bind {Q : List Token → α → Prop} (hp : FailsAt c p R) (hQ : SpellsAt c p Q)
    (hf : ∀ ts a d, c.Passes ts d → Q ts a → FailsAt d (f a) fun us => R (ts ++ us)) :
    FailsAt c (p >>= f) R := by
  intro fault hrun
  rcases run_bind_eq_error.1 hrun with hrun | ⟨a, d, ha, hrun⟩
  · obtain ⟨ts, d, hd, hR, hblamed, hend⟩ := hp fault hrun
    exact ⟨ts, d, hd, hR, hblamed, fun h => (stop_bind_of_error f hrun).trans (hend h)⟩
  · obtain ⟨ts, hts, hts'⟩ := hQ a d ha
    obtain ⟨us, e, he, hR, hblamed, hend⟩ := hf ts a d hts hts' fault hrun
    exact ⟨ts ++ us, e, hts.append he, hR, hblamed, fun h => (stop_bind_of_ok f ha).trans (hend h)⟩

/-- A parser that only looks around, and what comes after it. -/
theorem FailsAt.bind_stays {a : α} (hp : p.run c = .ok (a, c)) (hf : FailsAt c (f a) R) :
    FailsAt c (p >>= f) R := by
  intro fault hrun
  rw [run_bind_of_ok _ hp] at hrun
  obtain ⟨ts, d, hd, hR, hblamed, hend⟩ := hf fault hrun
  exact ⟨ts, d, hd, hR, hblamed, fun h => (stop_bind_of_ok f hp).trans (hend h)⟩

theorem FailsAt.bind_pure (h : FailsAt c p R) (f : α → β) :
    FailsAt c (p >>= fun a => pure (f a)) R := by
  intro fault hrun
  rcases run_bind_eq_error.1 hrun with hrun | ⟨a, d, -, hrun⟩
  · obtain ⟨ts, d, hd, hR, hblamed, hend⟩ := h fault hrun
    exact ⟨ts, d, hd, hR, hblamed, fun h => (stop_bind_of_error _ hrun).trans (hend h)⟩
  · simp at hrun

theorem Cursor.Passes.length_le {c d : Cursor} {tokens : List Token} (h : c.Passes tokens d) :
    d.rest.length ≤ c.rest.length := by
  rw [h.rest_eq, List.length_append]
  omega

theorem Cursor.Passes.length_lt {c d : Cursor} {token : Token} {tokens : List Token}
    (h : c.Passes (token :: tokens) d) : d.rest.length < c.rest.length := by
  rw [h.rest_eq, List.cons_append, List.length_cons, List.length_append]
  omega

/-- A recursion fails where its body does, if the rounds inside of it, with fewer tokens left, do
so. -/
theorem FailsWithin.recursive {body : Parser α → Parser α} (hbody : Progressive body)
    (h : ∀ c : Cursor, c.rest.length ≤ n →
      (∀ k < c.rest.length, FailsWithin k (recursive body) R) →
        FailsAt c (body (recursive body)) R) :
    FailsWithin n (recursive body) R := by
  induction n using Nat.strongRecOn with
  | ind n ih =>
    intro c hc fault hrun
    -- the body runs its rounds with fewer tokens left, so the induction is on their number
    have hrounds : ∀ k < c.rest.length, FailsWithin k (Parser.recursive body) R := fun k hk =>
      ih k (Nat.lt_of_lt_of_le hk hc) fun d hd =>
        h d (Nat.le_trans hd (Nat.le_of_lt (Nat.lt_of_lt_of_le hk hc)))
    rw [recursive_eq hbody] at hrun ⊢
    exact h c hc hrounds fault hrun

/-! ### Primitives -/

theorem failsAt_pure (a : α) : FailsAt c (pure a : Parser α) R := by
  intro fault hrun
  simp at hrun

theorem failsAt_of_eq_error {fault : Fault} (hp : p.run c = .error fault) (hstop : p.stop c = c)
    (hblamed : c.Blamed fault) (hR : R []) : FailsAt c p R := by
  intro fault' hrun
  rw [hp] at hrun
  cases hrun
  exact ⟨[], c, .nil c, hR, hblamed, fun _ => hstop⟩

theorem failsAt_fail {kind : SyntaxError}
    (h : ∀ text, kind.quoted? = some text → startsWith c.rest text = true) (hR : R []) :
    FailsAt c (fail kind : Parser α) R :=
  failsAt_of_eq_error (run_fail kind c) rfl ⟨rfl, rfl, h⟩ hR

theorem FailsAt.bind_upcoming {f : List Token → Parser β} (h : FailsAt c (f c.rest) R) :
    FailsAt c (upcoming >>= f) R :=
  .bind_stays (run_upcoming c) h

theorem FailsAt.bind_sees {text : String} {f : Bool → Parser β}
    (h : FailsAt c (f (startsWith c.rest text)) R) : FailsAt c (sees text >>= f) R :=
  .bind_stays (run_sees text c) h

theorem failsAt_skip (n : Nat) : FailsAt c (skip n) R := by
  intro fault hrun
  simp at hrun

theorem FailsAt.bind_skip {tokens rest : List Token} {f : Unit → Parser β}
    (hc : c.rest = tokens ++ rest)
    (h : ∀ d, c.Passes tokens d → FailsAt d (f ()) fun us => R (tokens ++ us)) :
    FailsAt c (skip tokens.length >>= f) R := by
  have hd := Cursor.passes_advance hc
  intro fault hrun
  rw [run_bind_of_ok _ (run_skip _ c)] at hrun
  obtain ⟨us, e, he, hR, hblamed, hend⟩ := h _ hd fault hrun
  exact ⟨tokens ++ us, e, hd.append he, hR, hblamed,
    fun h => (stop_bind_of_ok f (run_skip _ c)).trans (hend h)⟩

theorem FailsAt.bind_skip_one {t : Token} {rest : List Token} {f : Unit → Parser β}
    (hc : c.rest = t :: rest)
    (h : ∀ d, c.Passes [t] d → FailsAt d (f ()) fun us => R (t :: us)) :
    FailsAt c (skip 1 >>= f) R :=
  bind_skip (show c.rest = [t] ++ rest from hc) h

theorem FailsAt.bind_accept {text : String} {f : Bool → Parser β}
    (ht : ∀ t d, t.value = text → c.Passes [t] d → FailsAt d (f true) fun us => R (t :: us))
    (hf : startsWith c.rest text = false → FailsAt c (f false) R) :
    FailsAt c (accept text >>= f) R := by
  intro fault hrun
  rcases run_bind_eq_error.1 hrun with hrun | ⟨b, d, hb, hrun⟩
  · rw [run_accept] at hrun
    split at hrun <;> cases hrun
  · rcases run_accept_eq_ok.1 hb with ⟨rfl, t, hv, hd⟩ | ⟨rfl, rfl, hs⟩
    · obtain ⟨us, e, he, hR, hblamed, hend⟩ := ht t d hv hd fault hrun
      exact ⟨t :: us, e, hd.append he, hR, hblamed, fun h => (stop_bind_of_ok f hb).trans (hend h)⟩
    · exact FailsAt.bind_stays hb (hf hs) fault (by rwa [run_bind_of_ok _ hb])

theorem failsAt_expect {text what : String} (hR : R []) : FailsAt c (expect text what) R := by
  cases hs : startsWith c.rest text with
  | true =>
    intro fault hrun
    simp [run_expect, hs] at hrun
  | false =>
    have hrun : (expect text what).run c =
        .error { kind := .expected what, position := c.position } := by
      simp [run_expect, hs]
    have hstop : (expect text what).stop c = c := by
      rw [expect, stop_bind_of_ok _ (run_sees text c), hs]
      rfl
    exact failsAt_of_eq_error hrun hstop ⟨rfl, rfl, fun _ h => by cases h⟩ hR

theorem FailsAt.bind_expect {text what : String} {f : Unit → Parser β} (hR : R [])
    (h : ∀ t d, t.value = text → c.Passes [t] d → FailsAt d (f ()) fun us => R (t :: us)) :
    FailsAt c (expect text what >>= f) R := by
  refine (failsAt_expect hR).bind (Q := fun ts _ => ∃ t, ts = [t] ∧ t.value = text) ?_ ?_
  · intro u d hrun
    obtain ⟨t, hv, hd⟩ := run_expect_eq_ok.1 hrun
    exact ⟨[t], hd, t, rfl, hv⟩
  · rintro _ u d hd ⟨t, rfl, hv⟩
    exact h t d hv hd

theorem failsAt_token (hR : R []) : FailsAt c token R := by
  refine .bind_upcoming ?_
  cases hc : c.rest with
  | nil => exact failsAt_fail nofun hR
  | cons t rest => exact .bind_skip_one hc fun d _ => failsAt_pure t

theorem FailsAt.bind_token {f : Token → Parser β} (hR : R [])
    (h : ∀ t d, c.Passes [t] d → FailsAt d (f t) fun us => R (t :: us)) :
    FailsAt c (token >>= f) R := by
  refine (failsAt_token hR).bind (Q := fun ts t => ts = [t]) ?_ ?_
  · exact fun t d hrun => ⟨[t], run_token_eq_ok.1 hrun, rfl⟩
  · rintro _ t d hd rfl
    exact h t d hd

theorem Cursor.Passes.blamed {d : Cursor} {t : Token} {ts : List Token} {kind : SyntaxError}
    (h : c.Passes (t :: ts) d) (hquoted : ∀ text, kind.quoted? = some text → t.value = text) :
    c.Blamed { kind, position := t.position } where
  origin_eq := rfl
  position_eq := h.position_eq.symm
  startsWith_of_quoted text htext :=
    startsWith_eq_true_iff.2 ⟨t, (Cursor.passes_cons_iff.1 h).1, hquoted text htext⟩

/-- A token is found to be wrong after it was read. -/
theorem FailsAt.bind_token_of_blamed {f : Token → Parser β} (hR : R [])
    (hf : ∀ t d fault, c.Passes [t] d → (f t).run d = .error fault → c.Blamed fault) :
    FailsAt c (token >>= f) R := by
  intro fault hrun
  rcases run_bind_eq_error.1 hrun with hrun | ⟨t, d, ht, hrun⟩
  · obtain ⟨ts, d, hd, hR, hblamed, hend⟩ := failsAt_token hR fault hrun
    exact ⟨ts, d, hd, hR, hblamed, fun h => (stop_bind_of_error f hrun).trans (hend h)⟩
  · -- the token was read already, but the fault lies at the cursor before it
    have hd := run_token_eq_ok.1 ht
    refine ⟨[], c, .nil c, hR, hf t d fault hd hrun, fun hend => ?_⟩
    rw [hd.rest_eq] at hend
    cases hend

theorem failsAt_identifier (hR : R []) : FailsAt c identifier R := by
  refine .bind_token_of_blamed hR fun t d fault hd hrun => ?_
  split at hrun
  · simp at hrun
  · cases hrun
    exact hd.blamed fun text htext => Option.some.inj htext

theorem FailsAt.bind_identifier {f : Token → Parser β} (hR : R [])
    (h : ∀ t d, Identifier.isValid t.value = true → c.Passes [t] d →
      FailsAt d (f t) fun us => R (t :: us)) :
    FailsAt c (identifier >>= f) R := by
  refine (failsAt_identifier hR).bind
    (Q := fun ts t => ts = [t] ∧ Identifier.isValid t.value = true) ?_ ?_
  · intro t d hrun
    obtain ⟨hd, hvalid⟩ := run_identifier_eq_ok.1 hrun
    exact ⟨[t], hd, rfl, hvalid⟩
  · rintro _ t d hd ⟨rfl, hvalid⟩
    exact h t d hvalid hd

end

end Script.Parser
