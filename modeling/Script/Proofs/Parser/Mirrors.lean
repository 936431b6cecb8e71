import Script.Proofs.Tree.Unplaced
import Script.Proofs.Parser.Passing
/-!
# Tokens that are spelled alike

Two lists of tokens are spelled alike if they have the same texts in the same order. Parsers mirror
each other if they do alike on such tokens: both fail, for the same reason, or both succeed and
leave tokens that are spelled alike. What they return need only look the same through a function,
which forgets the positions that the tokens had.
-/

namespace Script.Parser

variable {α β γ δ : Type}

def SpelledAlike (ts us : List Token) : Prop := ts.map Token.value = us.map Token.value

def Cursor.Alike (c d : Cursor) : Prop :=
  c.previous.map Token.value = d.previous.map Token.value ∧ SpelledAlike c.rest d.rest

/-- Two outcomes of parsers, alike through `u`. -/
inductive Twins (u : α → γ) :
    Except Fault (α × Cursor) → Except Fault (α × Cursor) → Prop
  | ok {a b : α} {c d : Cursor} (h : u a = u b) (hc : c.Alike d) : Twins u (.ok (a, c)) (.ok (b, d))
  | error {e f : Fault} (h : e.kind = f.kind) : Twins u (.error e) (.error f)

def Mirrors (u : α → γ) (p q : Parser α) : Prop :=
  ∀ c d : Cursor, c.Alike d → Twins u (p.run c) (q.run d)

theorem eq_none_or_some_of_map_eq {u : α → γ} {a b : Option α} (h : a.map u = b.map u) :
    (a = none ∧ b = none) ∨ ∃ x y, a = some x ∧ b = some y ∧ u x = u y := by
  cases a with
  | none => exact .inl ⟨rfl, by simpa using h.symm⟩
  | some x =>
    obtain ⟨y, rfl, hy⟩ := Option.map_eq_some_iff.1 h.symm
    exact .inr ⟨x, y, rfl, rfl, hy.symm⟩

/-! ### Tokens -/

theorem SpelledAlike.length_eq {ts us : List Token} (h : SpelledAlike ts us) :
    ts.length = us.length := by
  have hlength := congrArg List.length h
  rwa [List.length_map, List.length_map] at hlength

theorem SpelledAlike.drop {ts us : List Token} (h : SpelledAlike ts us) (n : Nat) :
    SpelledAlike (ts.drop n) (us.drop n) := by
  rw [SpelledAlike, List.map_drop, List.map_drop, h]

theorem spelledAlike_nil_iff {ts : List Token} : SpelledAlike [] ts ↔ ts = [] := by
  simp [SpelledAlike]

theorem spelledAlike_cons_iff {t : Token} {ts us : List Token} :
    SpelledAlike (t :: ts) us ↔
      ∃ v vs, us = v :: vs ∧ t.value = v.value ∧ SpelledAlike ts vs := by
  rw [SpelledAlike, List.map_cons, eq_comm, List.map_eq_cons_iff]
  constructor
  · rintro ⟨v, vs, rfl, hv, hvs⟩
    exact ⟨v, vs, rfl, hv.symm, hvs.symm⟩
  · rintro ⟨v, vs, rfl, hv, hvs⟩
    exact ⟨v, vs, rfl, hv.symm, hvs.symm⟩

theorem SpelledAlike.symm {ts us : List Token} (h : SpelledAlike ts us) : SpelledAlike us ts :=
  Eq.symm h

theorem SpelledAlike.exists_append {ts us vs : List Token} (h : SpelledAlike (ts ++ us) vs) :
    ∃ ts' us', vs = ts' ++ us' ∧ SpelledAlike ts ts' ∧ SpelledAlike us us' := by
  rw [SpelledAlike, List.map_append, eq_comm, List.map_eq_append_iff] at h
  obtain ⟨ts', us', rfl, hts, hus⟩ := h
  exact ⟨ts', us', rfl, hts.symm, hus.symm⟩

/-- Alike tokens are none, or begin with tokens of one text. -/
theorem SpelledAlike.cases {ts us : List Token} (h : SpelledAlike ts us) :
    (ts = [] ∧ us = []) ∨ ∃ t v ts' us', ts = t :: ts' ∧ us = v :: us' ∧
      t.value = v.value ∧ SpelledAlike ts' us' := by
  cases ts with
  | nil => exact .inl ⟨rfl, spelledAlike_nil_iff.1 h⟩
  | cons t ts =>
    obtain ⟨v, vs, rfl, hv, hvs⟩ := spelledAlike_cons_iff.1 h
    exact .inr ⟨t, v, ts, vs, rfl, rfl, hv, hvs⟩

theorem SpelledAlike.startsWith_eq {ts us : List Token} (h : SpelledAlike ts us) (text : String) :
    startsWith ts text = startsWith us text := by
  rcases h.cases with ⟨rfl, rfl⟩ | ⟨t, v, ts, us, rfl, rfl, hv, -⟩
  · rfl
  · simp [Token.is, hv]

/-! ### Cursors -/

theorem Cursor.alike_start {ts us : List Token} (h : SpelledAlike ts us) :
    (Cursor.start ts).Alike (Cursor.start us) := ⟨rfl, h⟩

theorem Cursor.Alike.advance {c d : Cursor} (h : c.Alike d) (n : Nat) :
    (c.advance n).Alike (d.advance n) := by
  refine ⟨?_, ?_⟩
  · cases n with
    | zero => exact h.1
    | succ n =>
      rw [previous_advance_succ, previous_advance_succ, ← List.getElem?_map, ← List.getElem?_map,
        show c.rest.map Token.value = d.rest.map Token.value from h.2]
  · rw [rest_advance, rest_advance]
    exact h.2.drop n

/-! ### Sequences and primitives -/

section

variable {u : α → γ} {v : β → δ}

theorem Mirrors.bind {p q : Parser α} {f g : α → Parser β} (h : Mirrors u p q)
    (hfg : ∀ a b, u a = u b → Mirrors v (f a) (g b)) : Mirrors v (p >>= f) (q >>= g) := by
  intro c d hcd
  have htwins := h c d hcd
  rw [run_bind, run_bind]
  generalize p.run c = r, q.run d = s at htwins ⊢
  cases htwins with
  | ok hab hde => exact hfg _ _ hab _ _ hde
  | error hkind => exact .error hkind

theorem mirrors_pure {a b : α} (h : u a = u b) : Mirrors u (pure a) (pure b) :=
  fun _ _ hcd => .ok h hcd

theorem mirrors_fail (kind : SyntaxError) : Mirrors u (fail kind) (fail kind) :=
  fun _ _ _ => .error rfl

theorem mirrors_failAt {kind kind' : SyntaxError} (h : kind = kind') (p q : Position) :
    Mirrors u (failAt kind p) (failAt kind' q) :=
  fun _ _ _ => .error h

private theorem mirrors_upcoming : Mirrors (List.map Token.value) upcoming upcoming :=
  fun _ _ hcd => .ok hcd.2 hcd

theorem mirrors_previous : Mirrors (Option.map Token.value) previous previous :=
  fun _ _ hcd => .ok hcd.1 hcd

theorem mirrors_here : Mirrors (fun _ => ()) here here :=
  fun _ _ hcd => .ok rfl hcd

theorem mirrors_skip (n : Nat) : Mirrors id (skip n) (skip n) :=
  fun _ _ hcd => .ok rfl (hcd.advance n)

theorem Mirrors.bind_upcoming {f g : List Token → Parser β}
    (h : ∀ ts us, SpelledAlike ts us → Mirrors v (f ts) (g us)) :
    Mirrors v (upcoming >>= f) (upcoming >>= g) :=
  mirrors_upcoming.bind h

/-- What follows an exact result need only be compared for that result. -/
theorem Mirrors.bind_id {p q : Parser α} {f g : α → Parser β} (h : Mirrors id p q)
    (hfg : ∀ a, Mirrors v (f a) (g a)) : Mirrors v (p >>= f) (q >>= g) :=
  h.bind fun a b (hab : a = b) => hab ▸ hfg a

theorem Mirrors.ite {c : Prop} [Decidable c] {p q p' q' : Parser α} (h : Mirrors u p p')
    (h' : Mirrors u q q') : Mirrors u (if c then p else q) (if c then p' else q') := by
  split
  · exact h
  · exact h'

theorem mirrors_sees (text : String) : Mirrors id (sees text) (sees text) :=
  .bind_upcoming fun _ _ h => mirrors_pure (h.startsWith_eq text)

theorem mirrors_accept (text : String) : Mirrors id (accept text) (accept text) := by
  refine (mirrors_sees text).bind_id fun seen => .ite ?_ (mirrors_pure rfl)
  exact (mirrors_skip 1).bind_id fun _ => mirrors_pure rfl

theorem mirrors_expect (text what : String) : Mirrors id (expect text what) (expect text what) :=
  (mirrors_sees text).bind_id fun _ => .ite (mirrors_skip 1) (mirrors_fail _)

theorem mirrors_token : Mirrors Token.value token token := by
  refine .bind_upcoming fun ts us h => ?_
  rcases h.cases with ⟨rfl, rfl⟩ | ⟨t, w, ts, us, rfl, rfl, hw, -⟩
  · exact mirrors_fail _
  · exact (mirrors_skip 1).bind_id fun _ => mirrors_pure hw

theorem mirrors_identifier : Mirrors Token.value identifier identifier := by
  refine mirrors_token.bind fun t w hw => ?_
  rw [hw]
  cases Identifier.fault? w.value with
  | none => exact mirrors_pure hw
  | some fault => exact mirrors_failAt rfl _ _

/-! ### Recursion -/

private theorem Mirrors.rounds {body body' : Parser α → Parser α}
    (h : ∀ p q, Mirrors u p q → Mirrors u (body p) (body' q)) (n : Nat) :
    Mirrors u (rounds body n) (rounds body' n) := by
  induction n with
  | zero => exact mirrors_fail _
  | succ n ih => exact h _ _ ih

/-- Mirroring is kept by recursion, since alike tokens allow for equally many rounds. -/
theorem Mirrors.recursive {body body' : Parser α → Parser α}
    (h : ∀ p q, Mirrors u p q → Mirrors u (body p) (body' q)) :
    Mirrors u (recursive body) (recursive body') := by
  intro c d hcd
  have hlength := hcd.2.length_eq
  show Twins u ((Parser.rounds body (c.rest.length + 1)).run c)
    ((Parser.rounds body' (d.rest.length + 1)).run d)
  rw [hlength]
  exact Mirrors.rounds h _ c d hcd

end

end Script.Parser
