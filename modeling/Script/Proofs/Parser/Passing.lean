import Script.Parser.Recursion
/-!
# What a parser reads

The tokens that a parser reads stand between the cursor it begins at and the one it ends at. Two
statements about parsers are built on this. A parser *spells* a relation if whatever it reads is so
related to its result, and it *reads* some tokens if it takes exactly them wherever they stand.
-/

namespace Script.Parser

variable {α β : Type}

namespace Cursor

structure Passes (c : Cursor) (tokens : List Token) (d : Cursor) : Prop where
  rest_eq : c.rest = tokens ++ d.rest
  /-- Moving on by as many tokens as there are between the cursors leads to the second. -/
  eq_advance : d = c.advance tokens.length

theorem Passes.nil (c : Cursor) : c.Passes [] c := ⟨rfl, rfl⟩

theorem passes_nil_iff {c d : Cursor} : c.Passes [] d ↔ d = c := by
  constructor
  · exact fun h => h.eq_advance
  · rintro rfl
    exact .nil d

theorem passes_advance {c : Cursor} {tokens rest : List Token} (h : c.rest = tokens ++ rest) :
    c.Passes tokens (c.advance tokens.length) := by
  refine ⟨?_, rfl⟩
  rw [rest_advance, h, List.drop_left]

theorem exists_passes {c : Cursor} {tokens rest : List Token} (h : c.rest = tokens ++ rest) :
    ∃ d, c.Passes tokens d ∧ d.rest = rest := by
  refine ⟨_, passes_advance h, ?_⟩
  rw [rest_advance, h, List.drop_left]

theorem passes_one {c : Cursor} {token : Token} {rest : List Token} (h : c.rest = token :: rest) :
    c.Passes [token] (c.advance 1) :=
  passes_advance (show c.rest = [token] ++ rest from h)

theorem Passes.append {c d e : Cursor} {ts us : List Token} (h : c.Passes ts d)
    (h' : d.Passes us e) : c.Passes (ts ++ us) e := by
  refine ⟨?_, ?_⟩
  · rw [h.rest_eq, h'.rest_eq, List.append_assoc]
  · rw [h'.eq_advance, h.eq_advance, advance_advance, List.length_append]

theorem passes_append_iff {c e : Cursor} {ts us : List Token} :
    c.Passes (ts ++ us) e ↔ ∃ d, c.Passes ts d ∧ d.Passes us e := by
  constructor
  · intro h
    have hts : c.rest = ts ++ (us ++ e.rest) := by rw [h.rest_eq, List.append_assoc]
    obtain ⟨d, hd, hrest⟩ := exists_passes hts
    refine ⟨d, hd, hrest, ?_⟩
    rw [h.eq_advance, hd.eq_advance, advance_advance, List.length_append]
  · rintro ⟨d, h1, h2⟩
    exact h1.append h2

theorem passes_cons_iff {c d : Cursor} {token : Token} {tokens : List Token} :
    c.Passes (token :: tokens) d ↔ c.rest.head? = some token ∧ (c.advance 1).Passes tokens d := by
  constructor
  · intro h
    obtain ⟨e, he, hd⟩ := passes_append_iff.1 (show c.Passes ([token] ++ tokens) d from h)
    obtain rfl : e = c.advance 1 := he.eq_advance
    exact ⟨by rw [he.rest_eq]; rfl, hd⟩
  · rintro ⟨hhead, h⟩
    obtain ⟨rest, hrest⟩ := List.head?_eq_some_iff.1 hhead
    exact (passes_one hrest).append h

theorem Passes.previous_eq {c d : Cursor} {tokens : List Token} {last : Token}
    (h : c.Passes (tokens ++ [last]) d) : d.previous = some last := by
  have hlength : (tokens ++ [last]).length = tokens.length + 1 := List.length_append
  rw [h.eq_advance, hlength, previous_advance_succ, h.rest_eq, List.append_assoc,
    List.getElem?_append_right (Nat.le_refl _), Nat.sub_self]
  rfl

theorem Passes.position_eq {c d : Cursor} {token : Token} {tokens : List Token}
    (h : c.Passes (token :: tokens) d) : c.position = token.position := by
  rw [position, h.rest_eq]
  rfl

end Cursor

/-! ### Results of the primitives -/

theorem run_token_eq_ok {c d : Cursor} {t : Token} :
    token.run c = .ok (t, d) ↔ c.Passes [t] d := by
  rw [token, run_bind_of_ok _ (run_upcoming c), Cursor.passes_cons_iff, Cursor.passes_nil_iff]
  cases c.rest with
  | nil => simp
  | cons first rest =>
    simp only [run_bind_of_ok _ (run_skip 1 c), run_pure, Except.ok.injEq, Prod.mk.injEq,
      List.head?_cons, Option.some.injEq]
    exact and_congr_right fun _ => eq_comm

theorem run_identifier_eq_ok {c d : Cursor} {t : Token} :
    identifier.run c = .ok (t, d) ↔ c.Passes [t] d ∧ Identifier.isValid t.value = true := by
  rw [identifier, run_bind_eq_ok, ← run_token_eq_ok]
  constructor
  · rintro ⟨u, e, hu, h⟩
    cases hf : Identifier.fault? u.value with
    | some fault => simp [hf] at h
    | none =>
      simp only [hf, run_pure, Except.ok.injEq, Prod.mk.injEq] at h
      obtain ⟨rfl, rfl⟩ := h
      exact ⟨hu, by simp [Identifier.isValid, hf]⟩
  · rintro ⟨ht, hvalid⟩
    have hf : Identifier.fault? t.value = none := by simpa [Identifier.isValid] using hvalid
    exact ⟨t, d, ht, by simp [hf]⟩

theorem startsWith_eq_true_iff {tokens : List Token} {text : String} :
    startsWith tokens text = true ↔ ∃ t, tokens.head? = some t ∧ t.value = text := by
  cases tokens <;> simp

theorem exists_passes_one_iff {c d : Cursor} {text : String} :
    (∃ t, t.value = text ∧ c.Passes [t] d) ↔
      startsWith c.rest text = true ∧ d = c.advance 1 := by
  simp only [startsWith_eq_true_iff, Cursor.passes_cons_iff, Cursor.passes_nil_iff]
  constructor
  · rintro ⟨t, hv, ht, hd⟩
    exact ⟨⟨t, ht, hv⟩, hd⟩
  · rintro ⟨⟨t, ht, hv⟩, hd⟩
    exact ⟨t, hv, ht, hd⟩

theorem run_expect_eq_ok {c d : Cursor} {text what : String} {u : Unit} :
    (expect text what).run c = .ok (u, d) ↔ ∃ t, t.value = text ∧ c.Passes [t] d := by
  rw [run_expect, exists_passes_one_iff]
  split
  · next hs => simp [hs, eq_comm]
  · next hs => simp [hs]

theorem run_accept_eq_ok {c d : Cursor} {text : String} {b : Bool} :
    (accept text).run c = .ok (b, d) ↔
      (b = true ∧ ∃ t, t.value = text ∧ c.Passes [t] d) ∨
        (b = false ∧ d = c ∧ startsWith c.rest text = false) := by
  rw [run_accept, exists_passes_one_iff]
  split
  · next hs => simp [hs, eq_comm]
  · next hs => simp [hs, eq_comm]

/-! ### Relations that a parser spells -/

def SpellsAt (c : Cursor) (p : Parser α) (R : List Token → α → Prop) : Prop :=
  ∀ a d, p.run c = .ok (a, d) → ∃ tokens, c.Passes tokens d ∧ R tokens a

def Spells (p : Parser α) (R : List Token → α → Prop) : Prop := ∀ c, SpellsAt c p R

theorem SpellsAt.mono {c : Cursor} {p : Parser α} {R S : List Token → α → Prop}
    (h : SpellsAt c p R) (hRS : ∀ tokens a, R tokens a → S tokens a) : SpellsAt c p S := by
  intro a d hp
  obtain ⟨tokens, hd, hR⟩ := h a d hp
  exact ⟨tokens, hd, hRS tokens a hR⟩

theorem SpellsAt.bind {c : Cursor} {p : Parser α} {f : α → Parser β}
    {R : List Token → α → Prop} {S : List Token → β → Prop} (hp : SpellsAt c p R)
    (hf : ∀ ts a d, c.Passes ts d → R ts a → SpellsAt d (f a) fun us b => S (ts ++ us) b) :
    SpellsAt c (p >>= f) S := by
  intro b e h
  obtain ⟨a, d, ha, hb⟩ := run_bind_eq_ok.1 h
  obtain ⟨ts, hd, hR⟩ := hp a d ha
  obtain ⟨us, he, hS⟩ := hf ts a d hd hR b e hb
  exact ⟨ts ++ us, hd.append he, hS⟩

theorem SpellsAt.bind_pure {c : Cursor} {p : Parser α} {f : α → β}
    {R : List Token → α → Prop} {S : List Token → β → Prop} (hp : SpellsAt c p R)
    (hf : ∀ ts a, R ts a → S ts (f a)) : SpellsAt c (p >>= fun a => pure (f a)) S := by
  intro b d h
  obtain ⟨a, e, ha, hb⟩ := run_bind_eq_ok.1 h
  cases hb
  obtain ⟨ts, hd, hR⟩ := hp a _ ha
  exact ⟨ts, hd, hf ts a hR⟩

/-- Rounds of a body that carries a relation over spell it, since the last of them fails. -/
theorem Spells.recursive {body : Parser α → Parser α} {R : List Token → α → Prop}
    (h : ∀ p, Spells p R → Spells (body p) R) : Spells (recursive body) R := by
  have hrounds : ∀ n, Spells (rounds body n) R := by
    intro n
    induction n with
    | zero =>
      intro c a d hrun
      simp [rounds] at hrun
    | succ n ih => exact h _ ih
  exact fun c a d hrun => hrounds _ c a d hrun

theorem spellsAt_pure {c : Cursor} {a : α} {R : List Token → α → Prop} (h : R [] a) :
    SpellsAt c (pure a : Parser α) R := by
  intro b d hrun
  simp only [run_pure, Except.ok.injEq, Prod.mk.injEq] at hrun
  obtain ⟨rfl, rfl⟩ := hrun
  exact ⟨[], .nil c, h⟩

theorem spellsAt_fail (c : Cursor) (kind : SyntaxError) (R : List Token → α → Prop) :
    SpellsAt c (fail kind : Parser α) R := by
  intro a d hrun
  simp at hrun

theorem spellsAt_failAt (c : Cursor) (kind : SyntaxError) (position : Position)
    (R : List Token → α → Prop) : SpellsAt c (failAt kind position : Parser α) R := by
  intro a d hrun
  simp at hrun

theorem SpellsAt.bind_token {c : Cursor} {f : Token → Parser β} {S : List Token → β → Prop}
    (h : ∀ t d, c.Passes [t] d → SpellsAt d (f t) fun us b => S (t :: us) b) :
    SpellsAt c (token >>= f) S := by
  intro b e hrun
  obtain ⟨t, d, ht, hb⟩ := run_bind_eq_ok.1 hrun
  have hd := run_token_eq_ok.1 ht
  obtain ⟨us, he, hS⟩ := h t d hd b e hb
  exact ⟨t :: us, hd.append he, hS⟩

theorem SpellsAt.bind_identifier {c : Cursor} {f : Token → Parser β}
    {S : List Token → β → Prop}
    (h : ∀ t d, Identifier.isValid t.value = true → c.Passes [t] d →
      SpellsAt d (f t) fun us b => S (t :: us) b) :
    SpellsAt c (identifier >>= f) S := by
  intro b e hrun
  obtain ⟨t, d, ht, hb⟩ := run_bind_eq_ok.1 hrun
  obtain ⟨hd, hvalid⟩ := run_identifier_eq_ok.1 ht
  obtain ⟨us, he, hS⟩ := h t d hvalid hd b e hb
  exact ⟨t :: us, hd.append he, hS⟩

theorem SpellsAt.bind_expect {c : Cursor} {text what : String} {f : Unit → Parser β}
    {S : List Token → β → Prop}
    (h : ∀ t d, t.value = text → c.Passes [t] d → SpellsAt d (f ()) fun us b => S (t :: us) b) :
    SpellsAt c (expect text what >>= f) S := by
  intro b e hrun
  obtain ⟨u, d, hu, hb⟩ := run_bind_eq_ok.1 hrun
  obtain ⟨t, hv, hd⟩ := run_expect_eq_ok.1 hu
  obtain ⟨us, he, hS⟩ := h t d hv hd b e hb
  exact ⟨t :: us, hd.append he, hS⟩

theorem SpellsAt.bind_accept {c : Cursor} {text : String} {f : Bool → Parser β}
    {S : List Token → β → Prop}
    (ht : ∀ t d, t.value = text → c.Passes [t] d →
      SpellsAt d (f true) fun us b => S (t :: us) b)
    (hf : startsWith c.rest text = false → SpellsAt c (f false) S) :
    SpellsAt c (accept text >>= f) S := by
  intro b e hrun
  obtain ⟨accepted, d, ha, hb⟩ := run_bind_eq_ok.1 hrun
  rcases run_accept_eq_ok.1 ha with ⟨rfl, t, hv, hd⟩ | ⟨rfl, rfl, hs⟩
  · obtain ⟨us, he, hS⟩ := ht t d hv hd b e hb
    exact ⟨t :: us, hd.append he, hS⟩
  · exact hf hs b e hb

theorem SpellsAt.bind_skip {c : Cursor} {tokens rest : List Token} {f : Unit → Parser β}
    {S : List Token → β → Prop} (hc : c.rest = tokens ++ rest)
    (h : ∀ d, c.Passes tokens d → SpellsAt d (f ()) fun us b => S (tokens ++ us) b) :
    SpellsAt c (skip tokens.length >>= f) S := by
  have hd := Cursor.passes_advance hc
  intro b e hrun
  rw [run_bind_of_ok _ (run_skip _ c)] at hrun
  obtain ⟨us, he, hS⟩ := h _ hd b e hrun
  exact ⟨tokens ++ us, hd.append he, hS⟩

theorem SpellsAt.bind_skip_one {c : Cursor} {t : Token} {rest : List Token} {f : Unit → Parser β}
    {S : List Token → β → Prop} (hc : c.rest = t :: rest)
    (h : ∀ d, c.Passes [t] d → SpellsAt d (f ()) fun us b => S (t :: us) b) :
    SpellsAt c (skip 1 >>= f) S :=
  bind_skip (show c.rest = [t] ++ rest from hc) h

theorem SpellsAt.bind_upcoming {c : Cursor} {f : List Token → Parser β}
    {S : List Token → β → Prop} (h : SpellsAt c (f c.rest) S) :
    SpellsAt c (upcoming >>= f) S := h

theorem SpellsAt.bind_sees {c : Cursor} {text : String} {f : Bool → Parser β}
    {S : List Token → β → Prop} (h : SpellsAt c (f (startsWith c.rest text)) S) :
    SpellsAt c (sees text >>= f) S := h

/-! ### Tokens that a parser reads -/

/-- Where the tokens stand and the others follow, the parser takes exactly them and gives the
result. -/
def Reads (follow : List Token → Prop) (p : Parser α) (tokens : List Token) (a : α) : Prop :=
  ∀ c d : Cursor, c.Passes tokens d → follow d.rest → p.run c = .ok (a, d)

def Any (_ : List Token) : Prop := True

theorem Reads.mono {F G : List Token → Prop} {p : Parser α} {tokens : List Token} {a : α}
    (h : Reads F p tokens a) (hFG : ∀ rest, G rest → F rest) : Reads G p tokens a :=
  fun c d hd hrest => h c d hd (hFG d.rest hrest)

theorem Reads.of_any {F : List Token → Prop} {p : Parser α} {tokens : List Token} {a : α}
    (h : Reads Any p tokens a) : Reads F p tokens a :=
  h.mono fun _ _ => trivial

theorem Reads.bind {F G : List Token → Prop} {p : Parser α} {f : α → Parser β}
    {ts us : List Token} {a : α} {b : β} (hp : Reads F p ts a) (hf : Reads G (f a) us b)
    (hFG : ∀ rest, G rest → F (us ++ rest)) : Reads G (p >>= f) (ts ++ us) b := by
  intro c e he hrest
  obtain ⟨d, h1, h2⟩ := Cursor.passes_append_iff.1 he
  have hd : F d.rest := h2.rest_eq ▸ hFG e.rest hrest
  rw [run_bind_of_ok _ (hp c d h1 hd)]
  exact hf d e h2 hrest

/-- A parser that only looks ahead, and what comes after it. -/
theorem Reads.bind_nil {F G : List Token → Prop} {p : Parser α} {f : α → Parser β}
    {us : List Token} {a : α} {b : β} (hp : Reads F p [] a) (hf : Reads G (f a) us b)
    (hFG : ∀ rest, G rest → F (us ++ rest)) : Reads G (p >>= f) us b :=
  hp.bind hf hFG

theorem Reads.cons {G : List Token → Prop} {p : Parser α} {f : α → Parser β}
    {t : Token} {us : List Token} {a : α} {b : β} (hp : Reads Any p [t] a)
    (hf : Reads G (f a) us b) : Reads G (p >>= f) (t :: us) b :=
  hp.bind hf fun _ _ => trivial

theorem reads_pure {F : List Token → Prop} (a : α) : Reads F (pure a : Parser α) [] a := by
  intro c d h _
  rw [Cursor.passes_nil_iff.1 h, run_pure]

theorem Reads.bind_pure {F : List Token → Prop} {p : Parser α} {tokens : List Token} {a : α}
    (h : Reads F p tokens a) (f : α → β) :
    Reads F (p >>= fun a => pure (f a)) tokens (f a) := by
  intro c d hd hrest
  rw [run_bind_of_ok _ (h c d hd hrest), run_pure]

theorem reads_token (t : Token) : Reads Any token [t] t :=
  fun _ _ h _ => run_token_eq_ok.2 h

theorem reads_identifier {t : Token} (h : Identifier.isValid t.value = true) :
    Reads Any identifier [t] t :=
  fun _ _ hd _ => run_identifier_eq_ok.2 ⟨hd, h⟩

theorem reads_expect {t : Token} {text : String} (what : String) (h : t.value = text) :
    Reads Any (expect text what) [t] () :=
  fun _ _ hd _ => run_expect_eq_ok.2 ⟨t, h, hd⟩

theorem reads_accept {t : Token} {text : String} (h : t.value = text) :
    Reads Any (accept text) [t] true :=
  fun _ _ hd _ => run_accept_eq_ok.2 (.inl ⟨rfl, t, h, hd⟩)

theorem reads_accept_not (text : String) :
    Reads (fun rest => startsWith rest text = false) (accept text) [] false := by
  intro c d h hrest
  rw [Cursor.passes_nil_iff] at h
  subst h
  exact run_accept_eq_ok.2 (.inr ⟨rfl, rfl, hrest⟩)

theorem reads_skip (tokens : List Token) : Reads Any (skip tokens.length) tokens () := by
  intro c d h _
  rw [run_skip, h.eq_advance]

/-- A parser that looks at the tokens ahead reads some of them if it does so, knowing what
follows. -/
theorem Reads.of_upcoming {F : List Token → Prop} {f : List Token → Parser β}
    {tokens : List Token} {b : β}
    (h : ∀ rest, F rest → Reads (· = rest) (f (tokens ++ rest)) tokens b) :
    Reads F (upcoming >>= f) tokens b := by
  intro c d hd hrest
  rw [run_bind_of_ok _ (run_upcoming c), hd.rest_eq]
  exact h d.rest hrest c d hd rfl

theorem Reads.of_sees {F : List Token → Prop} {text : String} {f : Bool → Parser β}
    {tokens : List Token} {b : β}
    (h : ∀ rest, F rest → Reads (· = rest) (f (startsWith (tokens ++ rest) text)) tokens b) :
    Reads F (sees text >>= f) tokens b := by
  intro c d hd hrest
  rw [run_bind_of_ok _ (run_sees text c), hd.rest_eq]
  exact h d.rest hrest c d hd rfl

end Script.Parser
