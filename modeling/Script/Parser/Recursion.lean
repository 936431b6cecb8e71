import Script.Parser.Element
/-!
# What the recursions of the parser describe

Expressions, elements and the lists in them are read by recursions that are bounded by the number
of tokens. The bound is never felt: each of them satisfies the equation that its body describes.
The reason is that two parsers that agree on few tokens can replace each other inside a parser that
reads a token before it runs them.
-/

namespace Script.Parser

variable {α β : Type}

/-- The two parsers do the same wherever at most `n` tokens are left. -/
def Agree (n : Nat) (p q : Parser α) : Prop :=
  ∀ c : Cursor, c.rest.length ≤ n → p.outcome c = q.outcome c

theorem Agree.refl (n : Nat) (p : Parser α) : Agree n p p := fun _ _ => rfl

theorem Agree.mono {m n : Nat} {p q : Parser α} (h : Agree n p q) (hm : m ≤ n) : Agree m p q :=
  fun c hc => h c (Nat.le_trans hc hm)

theorem Agree.bind {n : Nat} {p q : Parser α} {f g : α → Parser β} (h : Agree n p q)
    (hf : ∀ a, Agree n (f a) (g a)) : Agree n (p >>= f) (q >>= g) :=
  fun c hc => outcome_bind_congr (h c hc) fun a d hp =>
    hf a d (Nat.le_trans (p.reaches hp).length_le hc)

theorem Agree.recursive {n : Nat} {body body' : Parser α → Parser α}
    (h : ∀ k p q, k ≤ n → Agree k p q → Agree k (body p) (body' q)) :
    Agree n (recursive body) (recursive body') := by
  have hr : ∀ m, Agree n (rounds body m) (rounds body' m) := by
    intro m
    induction m with
    | zero => exact .refl n _
    | succ m ih => exact h n _ _ (Nat.le_refl n) ih
  exact fun c hc => hr _ c hc

def Consumes (p : Parser α) : Prop :=
  ∀ c a d, p.run c = .ok (a, d) → d.rest.length < c.rest.length

theorem Consumes.bind {p : Parser α} (h : Consumes p) (f : α → Parser β) : Consumes (p >>= f) := by
  intro c b e hb
  obtain ⟨a, d, hp, hf⟩ := run_bind_eq_ok.1 hb
  exact Nat.lt_of_le_of_lt ((f a).reaches hf).length_le (h _ _ _ hp)

private theorem Consumes.of_bind {p : Parser α} {f : α → Parser β} (h : ∀ a, Consumes (f a)) :
    Consumes (p >>= f) := by
  intro c b e hb
  obtain ⟨a, d, hp, hf⟩ := run_bind_eq_ok.1 hb
  exact Nat.lt_of_lt_of_le (h a _ _ _ hf) (p.reaches hp).length_le

theorem consumes_fail (kind : SyntaxError) : Consumes (fail kind : Parser α) := by
  intro c a d h
  simp at h

/-- Behind a token that was read, agreement on fewer tokens is enough. -/
theorem Agree.bind_consumes {n : Nat} {p : Parser α} {f g : α → Parser β} (h : Consumes p)
    (hf : ∀ a k, k < n → Agree k (f a) (g a)) : Agree n (p >>= f) (p >>= g) :=
  fun _ hc => outcome_bind_congr rfl fun a d hp =>
    hf a _ (Nat.lt_of_lt_of_le (h _ _ _ hp) hc) d (Nat.le_refl _)

/-- A body is progressive if agreement of its argument on fewer tokens is enough. -/
theorem progressive_of_agree {body : Parser α → Parser α}
    (h : ∀ n p q, (∀ k, k < n → Agree k p q) → Agree n (body p) (body q)) :
    Progressive body :=
  fun p q c hpq =>
    h c.rest.length p q (fun _ hk d hd => hpq d (Nat.lt_of_le_of_lt hd hk)) c (Nat.le_refl _)

/-! ### What reads a token -/

theorem consumes_token : Consumes token := by
  intro c a d h
  rw [token, run_bind_of_ok _ (run_upcoming c)] at h
  cases hc : c.rest with
  | nil => simp [hc] at h
  | cons t rest =>
    simp only [hc, run_bind, run_skip, run_pure, Except.ok.injEq, Prod.mk.injEq] at h
    obtain ⟨-, rfl⟩ := h
    simp [hc]

theorem consumes_identifier : Consumes identifier := consumes_token.bind _

theorem startsWith_length_pos {tokens : List Token} {text : String}
    (h : startsWith tokens text = true) : 0 < tokens.length := by
  cases tokens with
  | nil => simp at h
  | cons => simp

theorem consumes_expect (text what : String) : Consumes (expect text what) := by
  intro c a d h
  rw [run_expect] at h
  split at h
  · next hs =>
    simp only [Except.ok.injEq, Prod.mk.injEq] at h
    obtain ⟨-, rfl⟩ := h
    have := startsWith_length_pos hs
    simp
    omega
  · simp at h

theorem length_lt_of_accept {text : String} {c d : Cursor}
    (h : (accept text).run c = .ok (true, d)) : d.rest.length < c.rest.length := by
  rw [run_accept] at h
  split at h
  · next hs =>
    simp only [Except.ok.injEq, Prod.mk.injEq, true_and] at h
    subst h
    have := startsWith_length_pos hs
    simp
    omega
  · simp at h

private theorem Agree.bind_accept {n : Nat} {text : String} {f g : Parser β} {p : Parser β}
    (h : ∀ k, k < n → Agree k f g) :
    Agree n (accept text >>= fun b => if b then f else p)
      (accept text >>= fun b => if b then g else p) := by
  intro c hc
  refine outcome_bind_congr rfl fun b d ha => ?_
  cases b with
  | false => rfl
  | true => exact h _ (Nat.lt_of_lt_of_le (length_lt_of_accept ha) hc) d (Nat.le_refl _)

theorem Agree.bind_upcoming {n : Nat} {f g : List Token → Parser β}
    (h : ∀ tokens, tokens.length ≤ n →
      ∀ c : Cursor, c.rest = tokens → (f tokens).outcome c = (g tokens).outcome c) :
    Agree n (upcoming >>= f) (upcoming >>= g) := by
  refine fun c hc => outcome_bind_congr rfl fun tokens d hu => ?_
  cases hu
  exact h c.rest hc c rfl

theorem outcome_skip_bind_congr {n : Nat} {f g : Unit → Parser β} {c : Cursor}
    (hc : 0 < n ∧ n ≤ c.rest.length) (h : ∀ k, k < c.rest.length → Agree k (f ()) (g ())) :
    (skip n >>= f).outcome c = (skip n >>= g).outcome c := by
  refine outcome_bind_congr rfl fun u d hu => ?_
  cases hu
  refine h (c.advance n).rest.length ?_ _ (Nat.le_refl _)
  rw [Cursor.rest_advance, List.length_drop]
  omega

/-! ### Lists -/

theorem progressive_itemsBody (item : Parser α) : Progressive (itemsBody item) :=
  progressive_of_agree fun _ _ _ h =>
    (Agree.refl _ item).bind fun _ =>
      Agree.bind_accept fun k hk => (h k hk).bind fun _ => .refl _ _

theorem items_eq (item : Parser α) :
    recursive (itemsBody item) = itemsBody item (recursive (itemsBody item)) :=
  recursive_eq (progressive_itemsBody item)

private theorem Agree.parenthesized {n : Nat} {p q : Parser α} (h : Agree n p q) :
    Agree n (parenthesized p) (parenthesized q) :=
  (Agree.refl n _).bind fun _ => (Agree.refl n _).bind fun closed => by
    cases closed with
    | true => exact .refl n _
    | false =>
      exact Agree.recursive fun k _ _ hk hr =>
        (h.mono hk).bind fun _ => (Agree.refl k _).bind fun more => by
          cases more with
          | true => exact hr.bind fun _ => .refl k _
          | false => exact .refl k _

theorem progressive_suffixesBody : Progressive suffixesBody := by
  refine progressive_of_agree fun n p q h c hc => outcome_bind_congr rfl fun b d ha => ?_
  have hd : d.rest.length ≤ n := Nat.le_trans ((accept "[]").reaches ha).length_le hc
  cases b with
  | true =>
    have hlt := Nat.lt_of_lt_of_le (length_lt_of_accept ha) hc
    exact (h _ hlt).bind (fun _ => .refl _ _) d (Nat.le_refl _)
  | false =>
    refine Agree.bind_upcoming (fun tokens ht e he => ?_) d hd
    subst he
    split
    · next hs =>
      simp only [Bool.and_eq_true] at hs
      refine outcome_skip_bind_congr ⟨by omega, ?_⟩ fun k hk => ?_
      · have := startsWith_length_pos hs.2
        rw [List.length_drop] at this
        omega
      · refine (h k ?_).bind fun _ => .refl _ _
        omega
    · rfl

theorem suffixes_eq : recursive suffixesBody = suffixesBody (recursive suffixesBody) :=
  recursive_eq progressive_suffixesBody

/-! ### Expressions -/

private theorem Agree.call {n : Nat} {p q : Parser Value} (h : ∀ k, k < n → Agree k p q) :
    Agree n (call p) (call q) :=
  Agree.bind_consumes consumes_identifier fun _ k hk =>
    (Agree.parenthesized (h k hk)).bind fun _ => .refl k _

private theorem Agree.plain {n : Nat} {p q : Parser Value} (h : ∀ k, k < n → Agree k p q) :
    Agree n (plain p) (plain q) := by
  refine Agree.bind_upcoming fun tokens ht c hc => ?_
  cases tokens with
  | nil => rfl
  | cons token rest =>
    simp only
    split
    · refine outcome_skip_bind_congr ⟨Nat.one_pos, by simp [hc]⟩ fun k hk => ?_
      rw [hc] at hk
      exact (h k (Nat.lt_of_lt_of_le hk ht)).bind fun _ => .refl k _
    · split
      · exact Agree.call h c (hc ▸ ht)
      · rfl

theorem progressive_expressionBody (rules : List Rule) : Progressive (expressionBody rules) :=
  progressive_of_agree fun n _ _ h =>
    (Agree.refl n _).bind fun element? => by
      cases element? with
      | none => exact Agree.plain h
      | some element => exact .refl n _

theorem expression_eq (rules : List Rule) :
    expression rules = expressionBody rules (expression rules) :=
  recursive_eq (progressive_expressionBody rules)

/-- A parser that reads a token, if there is one, whenever it succeeds. -/
def Advances (p : Parser α) : Prop :=
  ∀ c a d, 0 < c.rest.length → p.run c = .ok (a, d) → d.rest.length < c.rest.length

private theorem Consumes.advances {p : Parser α} (h : Consumes p) : Advances p :=
  fun c a d _ => h c a d

theorem Advances.bind {p : Parser α} (h : Advances p) (f : α → Parser β) :
    Advances (p >>= f) := by
  intro c b e hc hb
  obtain ⟨a, d, hp, hf⟩ := run_bind_eq_ok.1 hb
  exact Nat.lt_of_le_of_lt ((f a).reaches hf).length_le (h _ _ _ hc hp)

/-- What a rule reads has a token, and where no rule applies the cursor stays. -/
theorem byRule_cases {rules : List Rule} {valuesOnly : Bool} {c d : Cursor}
    {element? : Option Element} (h : (byRule rules valuesOnly).run c = .ok (element?, d)) :
    (element? = none ∧ d = c) ∨
      ∃ element n, (0 < c.rest.length → 0 < n) ∧ element? = some element ∧ d = c.advance n := by
  rw [byRule, run_bind_of_ok _ (run_upcoming c)] at h
  split at h
  · cases h
    exact .inl ⟨rfl, rfl⟩
  · next rule _ =>
    rw [run_bind, run_ofExcept] at h
    cases hr : rule.parse c.rest with
    | error fault => simp [hr, Except.map] at h
    | ok r =>
      simp only [hr, Except.map, run_bind, run_skip, run_pure, Except.ok.injEq,
        Prod.mk.injEq] at h
      obtain ⟨rfl, rfl⟩ := h
      exact .inr ⟨_, _, by omega, rfl, rfl⟩

theorem length_advance_lt {n : Nat} {c : Cursor} (hn : 0 < n) (hc : 0 < c.rest.length) :
    (c.advance n).rest.length < c.rest.length := by
  rw [Cursor.rest_advance, List.length_drop]
  omega

theorem Advances.byRule_bind {rules : List Rule} {valuesOnly : Bool}
    {f : Option Element → Parser β} (h : Advances (f none)) :
    Advances (byRule rules valuesOnly >>= f) := by
  intro c b e hc hb
  obtain ⟨element?, d, hp, hf⟩ := run_bind_eq_ok.1 hb
  rcases byRule_cases hp with ⟨rfl, rfl⟩ | ⟨element, n, hn, rfl, rfl⟩
  · exact h _ _ _ hc hf
  · exact Nat.lt_of_le_of_lt ((f _).reaches hf).length_le (length_advance_lt (hn hc) hc)

private theorem advances_plain (inner : Parser Value) : Advances (plain inner) := by
  intro c v d hc h
  rw [plain, run_bind_of_ok _ (run_upcoming c)] at h
  split at h
  · simp at h
  · split at h
    · obtain ⟨_, e, hs, h⟩ := run_bind_eq_ok.1 h
      simp only [run_skip, Except.ok.injEq, Prod.mk.injEq] at hs
      obtain ⟨-, rfl⟩ := hs
      exact Nat.lt_of_le_of_lt (Parser.reaches _ h).length_le (length_advance_lt Nat.one_pos hc)
    · split at h
      · exact consumes_identifier.bind _ _ _ _ h
      · exact consumes_token.bind _ _ _ _ h

private theorem advances_expression (rules : List Rule) : Advances (expression rules) := by
  rw [expression_eq]
  exact Advances.byRule_bind (advances_plain _)

/-! ### Elements -/

private theorem Agree.blockBody {n : Nat} {p q : Parser (Option α)} {r t : Parser (List α)}
    (h : Agree n p q) (hr : Agree n r t) : Agree n (blockBody p r) (blockBody q t) := by
  refine Agree.bind_upcoming fun tokens ht c hc => ?_
  cases tokens with
  | nil => rfl
  | cons token rest =>
    simp only
    split
    · rfl
    · exact (h.bind fun _ => hr.bind fun _ => .refl n _) c (hc ▸ ht)

theorem Agree.function {n : Nat} {p q : Parser (Option Element)} (exported : Bool)
    (position : Position) (h : ∀ k, k < n → Agree k p q) :
    Agree n (function p exported position) (function q exported position) :=
  Agree.bind_consumes (consumes_expect _ _) fun _ k hk =>
    (Agree.refl k _).bind fun _ => (Agree.refl k _).bind fun _ => (Agree.refl k _).bind fun _ =>
      (Agree.refl k _).bind fun _ =>
        (Agree.recursive fun _ _ _ hj hr => Agree.blockBody ((h k hk).mono hj) hr).bind
          fun _ => .refl k _

private theorem Agree.declaration {n : Nat} {rules : List Rule} {p q : Parser (Option Element)}
    (h : ∀ k, k < n → Agree k p q) : Agree n (declaration rules p) (declaration rules q) :=
  (Agree.refl n _).bind fun position => (Agree.refl n _).bind fun modifiers =>
    (Agree.refl n _).bind fun isFunction => by
      cases isFunction with
      | false =>
        simp only [Bool.false_eq_true, if_false]
        exact .refl n _
      | true =>
        simp only [if_true]
        split
        · exact .refl n _
        · exact Agree.function _ _ h

private theorem Agree.statement {n : Nat} {rules : List Rule} {p q : Parser (Option Element)}
    (h : ∀ k, k < n → Agree k p q) (token : Token) (rest : List Token) :
    Agree n (statement rules p token rest) (statement rules q token rest) := by
  unfold Parser.statement
  simp only
  split
  · exact .refl n _
  · split
    · exact .refl n _
    · split
      · exact .refl n _
      · split
        · exact (Agree.declaration h).bind fun _ => .refl n _
        · split
          · exact (Agree.function _ _ h).bind fun _ => .refl n _
          · exact .refl n _

theorem progressive_elementBody (rules : List Rule) : Progressive (elementBody rules) := by
  refine progressive_of_agree fun n p q h => ?_
  refine Agree.bind_upcoming fun tokens ht c hc => ?_
  cases tokens with
  | nil => rfl
  | cons token rest =>
    simp only
    split
    · rfl
    · refine Agree.bind (.refl n _) (fun element? => ?_) c (hc ▸ ht)
      cases element? with
      | none => exact (Agree.statement h token rest).bind fun _ => .refl n _
      | some element => exact .refl n _

theorem element_eq (rules : List Rule) : element rules = elementBody rules (element rules) :=
  recursive_eq (progressive_elementBody rules)

theorem consumes_function (element : Parser (Option Element)) (exported : Bool)
    (position : Position) : Consumes (function element exported position) :=
  (consumes_expect _ _).bind _

private theorem consumes_declaration (rules : List Rule) (element : Parser (Option Element)) :
    Consumes (declaration rules element) :=
  .of_bind fun _ => .of_bind fun modifiers => .of_bind fun isFunction => by
    cases isFunction with
    | false => exact (consumes_identifier.bind _).bind _
    | true =>
      simp only [if_true]
      split
      · exact consumes_fail _
      · exact consumes_function _ _ _

private theorem advances_statement (rules : List Rule) (element : Parser (Option Element))
    (token : Token) (rest : List Token) : Advances (statement rules element token rest) := by
  unfold Parser.statement
  simp only
  split
  · exact ((consumes_token.bind _).bind _).advances
  · split
    · exact (consumes_fail _).advances
    · split
      · exact ((advances_expression rules).bind _).bind _
      · split
        · exact ((consumes_declaration rules element).bind _).advances
        · split
          · exact ((consumes_function _ _ _).bind _).advances
          · split
            · exact ((consumes_identifier.bind _).bind _).advances
            · exact (consumes_fail _).advances

theorem advances_element (rules : List Rule) : Advances (element rules) := by
  rw [element_eq]
  intro c element? d hc h
  rw [elementBody, run_bind_of_ok _ (run_upcoming c)] at h
  split at h
  · next hnil => simp [hnil] at hc
  · split at h
    · obtain ⟨_, e, hs, h⟩ := run_bind_eq_ok.1 h
      simp only [run_skip, Except.ok.injEq, Prod.mk.injEq] at hs
      obtain ⟨-, rfl⟩ := hs
      exact Nat.lt_of_le_of_lt (Parser.reaches _ h).length_le (length_advance_lt Nat.one_pos hc)
    · exact Advances.byRule_bind ((advances_statement rules _ _ _).bind _) _ _ _ hc h

theorem progressive_blockBody {element : Parser (Option α)} (h : Advances element) :
    Progressive (blockBody element) := by
  refine progressive_of_agree fun n p q hpq => ?_
  refine Agree.bind_upcoming fun tokens ht c hc => ?_
  cases tokens with
  | nil => rfl
  | cons token rest =>
    simp only
    split
    · rfl
    · refine outcome_bind_congr rfl fun first d he => ?_
      have hd : d.rest.length < c.rest.length := h _ _ _ (by simp [hc]) he
      rw [hc] at hd
      exact (hpq _ (Nat.lt_of_lt_of_le hd ht)).bind (fun _ => .refl _ _) d (Nat.le_refl _)

/-- The elements of a function's body: none before the closing brace, else one and the others. -/
theorem block_eq (rules : List Rule) :
    recursive (blockBody (element rules)) =
      blockBody (element rules) (recursive (blockBody (element rules))) :=
  recursive_eq (progressive_blockBody (advances_element rules))

end Script.Parser
