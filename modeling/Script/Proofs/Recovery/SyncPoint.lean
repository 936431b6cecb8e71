import Script.Program
/-!
# Where reading resumes

A malformed statement is taken to end at the first token that can end a statement: a semicolon
outside of the braces that were opened, or the brace that closes the outermost of them. Here this
token is told by counting braces, and the reader's way to find it is shown to find this one.
-/

namespace Script

open Script.Parser

def opened (tokens : List Token) : Nat := tokens.countP (·.is "\x7b")

def closed (tokens : List Token) : Nat := tokens.countP (·.is "\x7d")

/-- The token behind these tokens ends a statement that began before them, inside `depth` braces: it
is a semicolon and no brace is left open before it, or it is a brace and none is left open by it. -/
def EndsStatement (depth : Nat) (before : List Token) (token : Token) : Prop :=
  token.value = ";" ∧ depth + opened before = closed before ∨
    token.value = "\x7d" ∧ depth + opened (before ++ [token]) ≤ closed (before ++ [token])

def SyncPoint (depth : Nat) (tokens : List Token) (j : Nat) : Prop :=
  ∃ before token behind, tokens = before ++ token :: behind ∧ before.length = j ∧
    EndsStatement depth before token

/-! ### Counting braces -/

@[simp] theorem opened_nil : opened [] = 0 := rfl

@[simp] theorem closed_nil : closed [] = 0 := rfl

theorem opened_cons (token : Token) (rest : List Token) :
    opened (token :: rest) = opened rest + if token.is "\x7b" then 1 else 0 :=
  List.countP_cons

theorem closed_cons (token : Token) (rest : List Token) :
    closed (token :: rest) = closed rest + if token.is "\x7d" then 1 else 0 :=
  List.countP_cons

@[simp] theorem opened_append (ts us : List Token) : opened (ts ++ us) = opened ts + opened us :=
  List.countP_append

@[simp] theorem closed_append (ts us : List Token) : closed (ts ++ us) = closed ts + closed us :=
  List.countP_append

private theorem endsStatement_cons_iff {depth depth' : Nat} {token : Token} {before : List Token}
    {last : Token} (h : depth + opened [token] = depth' + closed [token]) :
    EndsStatement depth (token :: before) last ↔ EndsStatement depth' before last := by
  have hopened : ∀ ts, opened (token :: ts) = opened [token] + opened ts := opened_append [token]
  have hclosed : ∀ ts, closed (token :: ts) = closed [token] + closed ts := closed_append [token]
  unfold EndsStatement
  rw [List.cons_append, hopened before, hclosed before, hopened (before ++ [last]),
    hclosed (before ++ [last])]
  refine or_congr (and_congr_right fun _ => ?_) (and_congr_right fun _ => ?_) <;> omega

theorem endsStatement_semicolon_iff {depth : Nat} {before : List Token} {token : Token}
    (h : token.value = ";") :
    EndsStatement depth before token ↔ depth + opened before = closed before := by
  simp [EndsStatement, h]

theorem endsStatement_brace_iff {depth : Nat} {before : List Token} {token : Token}
    (h : token.value = "\x7d") :
    EndsStatement depth before token ↔ depth + opened before ≤ closed before + 1 := by
  simp [EndsStatement, h, opened_cons, closed_cons, Token.is]

instance (depth : Nat) (before : List Token) (token : Token) :
    Decidable (EndsStatement depth before token) :=
  inferInstanceAs (Decidable (_ ∨ _))

theorem syncPoint_iff_getElem? {depth : Nat} {tokens : List Token} {j : Nat} :
    SyncPoint depth tokens j ↔
      ∃ token ∈ tokens[j]?, EndsStatement depth (tokens.take j) token := by
  constructor
  · rintro ⟨before, token, behind, rfl, rfl, hends⟩
    exact ⟨token, by simp, by simpa using hends⟩
  · rintro ⟨token, htoken, hends⟩
    obtain ⟨hj, rfl⟩ := List.getElem?_eq_some_iff.1 htoken
    refine ⟨tokens.take j, tokens[j], tokens.drop (j + 1), ?_, ?_, hends⟩
    · rw [List.getElem_cons_drop, List.take_append_drop]
    · rw [List.length_take, Nat.min_eq_left (Nat.le_of_lt hj)]

instance (depth : Nat) (tokens : List Token) (j : Nat) : Decidable (SyncPoint depth tokens j) :=
  decidable_of_iff _ syncPoint_iff_getElem?.symm

/-! ### The first one -/

variable {depth j : Nat} {token : Token} {rest : List Token}

theorem syncPoint_zero_iff :
    SyncPoint depth (token :: rest) 0 ↔ EndsStatement depth [] token := by
  constructor
  · rintro ⟨before, t, behind, htokens, hlength, h⟩
    obtain rfl := List.length_eq_zero_iff.1 hlength
    obtain ⟨rfl, -⟩ := List.cons.inj htokens
    exact h
  · exact fun h => ⟨[], token, rest, rfl, rfl, h⟩

theorem syncPoint_succ_iff {depth' : Nat}
    (h : depth + opened [token] = depth' + closed [token]) :
    SyncPoint depth (token :: rest) (j + 1) ↔ SyncPoint depth' rest j := by
  constructor
  · rintro ⟨before, t, behind, htokens, hlength, hends⟩
    cases before with
    | nil => cases hlength
    | cons first before =>
      obtain ⟨rfl, hrest⟩ := List.cons.inj htokens
      exact ⟨before, t, behind, hrest, Nat.succ.inj hlength, (endsStatement_cons_iff h).1 hends⟩
  · rintro ⟨before, t, behind, rfl, rfl, hends⟩
    exact ⟨token :: before, t, behind, rfl, rfl, (endsStatement_cons_iff h).2 hends⟩

theorem SyncPoint.lt_length {tokens : List Token} (h : SyncPoint depth tokens j) :
    j < tokens.length := by
  obtain ⟨before, token, behind, rfl, rfl, -⟩ := h
  simp

theorem syncPoint_append_iff {ts us : List Token} (h : j < ts.length) :
    SyncPoint depth (ts ++ us) j ↔ SyncPoint depth ts j := by
  constructor
  · rintro ⟨before, token, behind, htokens, rfl, hends⟩
    have hbefore : before ++ [token] <+: ts := by
      have hinit : before ++ [token] <+: ts ++ us := ⟨behind, by simp [htokens]⟩
      refine List.prefix_of_prefix_length_le hinit (List.prefix_append ts us) ?_
      simpa [Nat.succ_le_iff] using h
    obtain ⟨more, rfl⟩ := hbefore
    exact ⟨before, token, more, by simp, rfl, hends⟩
  · rintro ⟨before, token, behind, rfl, rfl, hends⟩
    exact ⟨before, token, behind ++ us, by simp, rfl, hends⟩

/-- The first token ends the statement and is the only one skipped, or it is skipped together with
those that are skipped behind it. -/
theorem skippedLength_cons (depth : Nat) (token : Token) (rest : List Token) :
    EndsStatement depth [] token ∧ skippedLength depth (token :: rest) = 1 ∨
      ¬EndsStatement depth [] token ∧ ∃ depth', depth + opened [token] = depth' + closed [token] ∧
        skippedLength depth (token :: rest) = skippedLength depth' rest + 1 := by
  rw [skippedLength]
  split
  · next hopen =>
    rw [Token.is_iff] at hopen
    refine .inr ⟨?_, depth + 1, ?_, rfl⟩
    · simp [EndsStatement, hopen]
    · simp [opened_cons, closed_cons, Token.is, hopen]
  · next hopen =>
    split
    · next hclose =>
      rw [Token.is_iff] at hclose
      have hends : EndsStatement depth [] token ↔ depth ≤ 1 := endsStatement_brace_iff hclose
      split
      · next hdepth => exact .inl ⟨hends.2 hdepth, rfl⟩
      · next hdepth =>
        refine .inr ⟨fun h => hdepth (hends.1 h), depth - 1, ?_, rfl⟩
        simp only [opened_cons, closed_cons, Token.is, hclose]
        simp only [String.reduceBEq, Bool.false_eq_true, if_false, if_true, opened_nil, closed_nil]
        omega
    · next hclose =>
      rw [Token.is_iff] at hopen hclose
      split
      · next hsemicolon =>
        rw [Token.is_iff] at hsemicolon
        exact .inl ⟨.inl ⟨hsemicolon.1, hsemicolon.2⟩, rfl⟩
      · next hsemicolon =>
        refine .inr ⟨?_, depth, ?_, rfl⟩
        · rintro (⟨he, hdepth⟩ | ⟨he, -⟩)
          · exact hsemicolon ⟨Token.is_iff.2 he, hdepth⟩
          · exact hclose he
        · simp [opened_cons, closed_cons, Token.is, hopen, hclose]

theorem skippedLength_eq_of_first {tokens : List Token} (h : SyncPoint depth tokens j)
    (hfirst : ∀ i < j, ¬SyncPoint depth tokens i) : skippedLength depth tokens = j + 1 := by
  induction tokens generalizing depth j with
  | nil => exact absurd h.lt_length (Nat.not_lt_zero j)
  | cons token rest ih =>
    rcases skippedLength_cons depth token rest with ⟨hends, hskip⟩ | ⟨hends, depth', hdepth, hskip⟩
    · have hj : j = 0 :=
        Nat.eq_zero_of_not_pos fun hj => hfirst 0 hj (syncPoint_zero_iff.2 hends)
      rw [hskip, hj]
    · have hj : j ≠ 0 := by
        rintro rfl
        exact hends (syncPoint_zero_iff.1 h)
      obtain ⟨i, rfl⟩ := Nat.exists_eq_succ_of_ne_zero hj
      rw [hskip, ih ((syncPoint_succ_iff hdepth).1 h) fun k hk hpoint =>
        hfirst (k + 1) (Nat.succ_lt_succ hk) ((syncPoint_succ_iff hdepth).2 hpoint)]

theorem le_skippedLength {tokens : List Token} {n : Nat} (hn : n ≤ tokens.length)
    (h : ∀ j, SyncPoint depth tokens j → n ≤ j + 1) : n ≤ skippedLength depth tokens := by
  induction tokens generalizing depth n with
  | nil => exact hn
  | cons token rest ih =>
    rcases skippedLength_cons depth token rest with ⟨hends, hskip⟩ | ⟨hends, depth', hdepth, hskip⟩
    · rw [hskip]
      exact h 0 (syncPoint_zero_iff.2 hends)
    · have hrest : n - 1 ≤ skippedLength depth' rest := by
        refine ih (Nat.sub_le_of_le_add hn) fun j hj => ?_
        exact Nat.sub_le_of_le_add (h (j + 1) ((syncPoint_succ_iff hdepth).2 hj))
      omega

end Script
