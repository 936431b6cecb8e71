import Script.Parser.Recursion
/-!
# The cursor stays within the tokens

Nothing in a cursor keeps it from running past the last token. A parser moves it by one or two
tokens where it has seen that they are there, and where a rule has read an element, by no more
tokens than the rule was shown. So a parser that begins within the tokens stays within them, also
where it fails.
-/

namespace Script.Parser

variable {α β : Type}

/-- If the cursor stands within the tokens, the parser does so where it stops. -/
def StaysAt (c : Cursor) (p : Parser α) : Prop := c.InRange → (p.stop c).InRange

def Stays (p : Parser α) : Prop := ∀ c, StaysAt c p

section

variable {c d : Cursor} {p q : Parser α} {f : α → Parser β}

theorem StaysAt.inRange_of_mem_visited (hp : StaysAt c p) (hc : c.InRange)
    (hd : d ∈ p.visited c) : d.InRange :=
  (hp hc).of_reaches (Cursor.reaches_of_mem_along hd).2

theorem StaysAt.inRange_of_ok {a : α} (hp : StaysAt c p) (hc : c.InRange)
    (hrun : p.run c = .ok (a, d)) : d.InRange := by
  rw [(run_eq_ok_iff.1 hrun).2]
  exact hp hc

/-! ### Sequences and primitives -/

theorem staysAt_of_moves_eq_nil (h : p.moves c = []) : StaysAt c p := by
  intro hc
  rw [stop, h]
  exact hc

theorem StaysAt.bind (hp : StaysAt c p) (hf : ∀ a d, p.run c = .ok (a, d) → StaysAt d (f a)) :
    StaysAt c (p >>= f) := by
  intro hc
  cases hrun : p.run c with
  | error fault =>
    rw [stop_bind_of_error f hrun]
    exact hp hc
  | ok r =>
    rw [stop_bind_of_ok f hrun]
    exact hf r.1 r.2 hrun (hp.inRange_of_ok hc hrun)

theorem Stays.bind (hp : Stays p) (hf : ∀ a, Stays (f a)) : Stays (p >>= f) :=
  fun c => (hp c).bind fun a d _ => hf a d

theorem Stays.ite {b : Prop} [Decidable b] (hp : Stays p) (hq : Stays q) :
    Stays (if b then p else q) := by
  split
  · exact hp
  · exact hq

theorem stays_pure (a : α) : Stays (pure a : Parser α) := fun _ => staysAt_of_moves_eq_nil rfl

theorem stays_fail (kind : SyntaxError) : Stays (fail kind : Parser α) :=
  fun _ => staysAt_of_moves_eq_nil rfl

theorem stays_failAt (kind : SyntaxError) (position : Position) :
    Stays (failAt kind position : Parser α) :=
  fun _ => staysAt_of_moves_eq_nil rfl

theorem Stays.bind_pure (hp : Stays p) (g : α → β) : Stays (p >>= fun a => pure (g a)) :=
  hp.bind fun a => stays_pure (g a)

private theorem stays_previous : Stays previous := fun _ => staysAt_of_moves_eq_nil rfl

theorem stays_here : Stays here := fun _ => staysAt_of_moves_eq_nil rfl

theorem stays_sees (text : String) : Stays (sees text) := fun _ => staysAt_of_moves_eq_nil rfl

theorem Stays.bind_upcoming {f : List Token → Parser β}
    (h : ∀ tokens c, c.rest = tokens → StaysAt c (f tokens)) : Stays (upcoming >>= f) := by
  refine fun c => StaysAt.bind (staysAt_of_moves_eq_nil rfl) fun tokens d hrun => ?_
  cases hrun
  exact h c.rest c rfl

/-- Tokens that were seen may be passed. -/
theorem staysAt_skip {n : Nat} (hn : n ≤ c.rest.length) : StaysAt c (skip n) :=
  fun hc => hc.advance hn

theorem StaysAt.bind_skip {n : Nat} {f : Unit → Parser β} (hn : n ≤ c.rest.length)
    (hf : StaysAt (c.advance n) (f ())) : StaysAt c (skip n >>= f) := by
  refine StaysAt.bind (staysAt_skip hn) fun u d hrun => ?_
  cases hrun
  exact hf

theorem Stays.bind_sees_ite {text : String} {f : Unit → Parser β} {q : Parser β}
    (hf : Stays (f ())) (hq : Stays q) :
    Stays (sees text >>= fun seen => if seen = true then skip 1 >>= f else q) := by
  refine fun c => StaysAt.bind (stays_sees text c) fun seen d hrun => ?_
  cases hrun
  split
  · next hseen => exact .bind_skip (startsWith_length_pos hseen) (hf _)
  · exact hq c

theorem stays_accept (text : String) : Stays (accept text) :=
  .bind_sees_ite (stays_pure true) (stays_pure false)

theorem stays_expect (text what : String) : Stays (expect text what) := by
  have h : Stays (sees text >>= fun seen =>
      if seen = true then skip 1 >>= pure else fail (.expected what)) :=
    .bind_sees_ite (stays_pure ()) (stays_fail _)
  simp only [bind_pure] at h
  exact h

theorem stays_token : Stays token := by
  refine .bind_upcoming fun tokens c hc => ?_
  cases tokens with
  | nil => exact stays_fail _ c
  | cons t rest => exact .bind_skip (by simp [hc]) (stays_pure t _)

theorem stays_identifier : Stays identifier := by
  refine stays_token.bind fun t => ?_
  split
  · exact stays_pure t
  · exact stays_failAt _ _

/-- A recursion stays within the tokens if its body does. -/
theorem stays_recursive {body : Parser α → Parser α}
    (hbody : ∀ more, Stays more → Stays (body more)) : Stays (recursive body) := by
  have hrounds : ∀ n, Stays (rounds body n) := by
    intro n
    induction n with
    | zero => exact stays_fail _
    | succ n ih => exact hbody _ ih
  exact fun c => hrounds _ c

end

/-! ### Types and lists -/

private theorem stays_suffixes : Stays (recursive suffixesBody) := by
  refine stays_recursive fun more hmore => (stays_accept _).bind fun joined => .ite ?_ ?_
  · exact hmore.bind_pure _
  · refine .bind_upcoming fun tokens c hc => ?_
    split
    · next hs =>
      rw [Bool.and_eq_true] at hs
      have hsecond := startsWith_length_pos hs.2
      rw [List.length_drop] at hsecond
      exact .bind_skip (by rw [hc]; omega) (hmore.bind_pure _ _)
    · exact stays_pure _ c

theorem stays_typeName : Stays typeName :=
  stays_identifier.bind fun _ => stays_suffixes.bind_pure _

private theorem stays_parameter : Stays parameter :=
  stays_here.bind fun _ => stays_typeName.bind fun _ => stays_identifier.bind_pure _

theorem stays_parenthesized {item : Parser α} (hitem : Stays item) :
    Stays (parenthesized item) := by
  have hitems : Stays (recursive (itemsBody item)) :=
    stays_recursive fun more hmore => hitem.bind fun first => (stays_accept _).bind fun _ =>
      .ite (hmore.bind_pure _) ((stays_expect _ _).bind fun _ => stays_pure [first])
  exact (stays_expect _ _).bind fun _ => (stays_accept _).bind fun _ => .ite (stays_pure []) hitems

private theorem staysAt_modifiersBehind (tokens : List Token) (seen : Modifiers) (c : Cursor)
    (hc : c.rest = tokens) : StaysAt c (modifiersBehind seen tokens) := by
  induction tokens generalizing seen c with
  | nil => exact stays_pure seen c
  | cons token rest ih =>
    rw [modifiersBehind]
    split
    · split
      · refine .bind_skip (by simp [hc]) (ih _ _ ?_)
        rw [Cursor.rest_advance, hc]
        rfl
      · exact stays_fail _ c
    · exact stays_pure seen c

private theorem stays_modifiers : Stays modifiers :=
  .bind_upcoming fun tokens c => staysAt_modifiersBehind tokens _ c

theorem stays_finish : Stays finish :=
  stays_previous.bind fun _ => .ite (stays_pure ()) (stays_expect _ _)

/-! ### Values -/

/-- However many tokens a rule says it has read, the parser moves on by no more than are left. -/
theorem stays_byRule (rules : List Rule) (valuesOnly : Bool) : Stays (byRule rules valuesOnly) := by
  refine .bind_upcoming fun window c hc => ?_
  cases Rule.first? rules valuesOnly window with
  | none => exact stays_pure none c
  | some rule =>
    refine StaysAt.bind (staysAt_of_moves_eq_nil rfl) fun r d hrun => ?_
    cases hparse : rule.parse window with
    | error fault => simp [hparse, Except.map] at hrun
    | ok r' =>
      simp only [hparse, run_ofExcept, Except.map, Except.ok.injEq, Prod.mk.injEq] at hrun
      obtain ⟨-, rfl⟩ := hrun
      exact .bind_skip (by rw [hc]; exact Nat.min_le_right _ _) (stays_pure _ _)

private theorem stays_atom : Stays atom := by
  refine stays_token.bind fun t => ?_
  split
  · exact stays_pure _
  · exact .ite (stays_pure _) (stays_failAt _ _)

private theorem stays_plain {inner : Parser Value} (hinner : Stays inner) :
    Stays (plain inner) := by
  have hcall : Stays (call inner) :=
    stays_identifier.bind fun name => (stays_parenthesized hinner).bind_pure _
  refine .bind_upcoming fun tokens c hc => ?_
  cases tokens with
  | nil => exact stays_fail _ c
  | cons token rest =>
    simp only
    split
    · refine .bind_skip (by simp [hc]) (hinner.bind (fun value => ?_) _)
      exact (stays_expect _ _).bind fun _ => stays_pure value
    · split
      · exact hcall c
      · exact stays_atom c

theorem stays_expression (rules : List Rule) : Stays (expression rules) := by
  refine stays_recursive fun inner hinner => (stays_byRule rules true).bind fun element? => ?_
  cases element? with
  | none => exact stays_plain hinner
  | some element =>
    simp only
    split
    · exact stays_pure _
    · exact stays_failAt _ _

private theorem stays_valueStatement (rules : List Rule) : Stays (valueStatement rules) :=
  (stays_expression rules).bind fun value => stays_finish.bind fun _ => stays_pure value

private theorem stays_initializer (rules : List Rule) (constant : Bool) :
    Stays (initializer rules constant) := by
  refine fun c => StaysAt.bind (stays_sees _ c) fun seen d hrun => ?_
  cases hrun
  split
  · next hseen =>
    split
    · exact stays_fail _ c
    · exact .bind_skip (startsWith_length_pos hseen) (stays_pure none _)
  · refine (stays_expect _ _).bind (fun _ => (stays_expression rules).bind fun value => ?_) c
    exact stays_finish.bind fun _ => stays_pure (some value)

/-! ### Elements -/

section

variable {inner : Parser (Option Element)} (hinner : Stays inner)

include hinner

private theorem stays_block : Stays (recursive (blockBody inner)) := by
  refine stays_recursive fun more hmore => .bind_upcoming fun tokens c hc => ?_
  cases tokens with
  | nil => exact stays_fail _ c
  | cons token rest =>
    simp only
    split
    · exact .bind_skip (by simp [hc]) (stays_pure [] _)
    · exact hinner.bind (fun first => hmore.bind_pure _) c

theorem stays_function (exported : Bool) (position : Position) :
    Stays (function inner exported position) :=
  (stays_expect _ _).bind fun _ => stays_identifier.bind fun _ =>
    (stays_parenthesized stays_parameter).bind fun _ => stays_typeName.bind fun _ =>
      (stays_expect _ _).bind fun _ => (stays_block hinner).bind_pure _

private theorem stays_declaration (rules : List Rule) : Stays (declaration rules inner) := by
  refine stays_here.bind fun position => stays_modifiers.bind fun modifiers => ?_
  refine (stays_sees _).bind fun func => .ite (.ite (stays_fail _) (stays_function hinner _ _)) ?_
  exact stays_typeName.bind fun type => stays_identifier.bind fun name =>
    (stays_initializer rules _).bind_pure _

private theorem stays_statement (rules : List Rule) (token : Token) (rest : List Token) :
    Stays (statement rules inner token rest) := by
  have hreturning : Stays (returning rules) :=
    stays_token.bind fun keyword => (stays_expression rules).bind fun value =>
      stays_finish.bind fun _ => stays_pure _
  have hassignment : Stays (assignment rules) :=
    stays_identifier.bind fun name => (stays_expect _ _).bind fun _ =>
      (stays_expression rules).bind fun value => stays_finish.bind fun _ => stays_pure _
  refine .ite (hreturning.bind_pure _) (.ite (stays_fail _) ?_)
  refine .ite ((stays_valueStatement rules).bind_pure _) (.ite ?_ (.ite ?_ ?_))
  · exact (stays_declaration hinner rules).bind_pure _
  · exact (stays_function hinner _ _).bind_pure _
  · exact .ite (hassignment.bind_pure _) (stays_fail _)

end

theorem stays_element (rules : List Rule) : Stays (element rules) := by
  refine stays_recursive fun inner hinner => .bind_upcoming fun tokens c hc => ?_
  cases tokens with
  | nil => exact stays_pure none c
  | cons token rest =>
    simp only
    split
    · exact .bind_skip (by simp [hc]) (stays_pure none _)
    · refine (stays_byRule rules false).bind (fun element? => ?_) c
      cases element? with
      | none => exact (stays_statement hinner rules token rest).bind_pure _
      | some element => exact stays_pure _

end Script.Parser
