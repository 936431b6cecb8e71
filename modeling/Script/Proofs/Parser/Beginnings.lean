import Script.Program.Progress
/-!
# What stands before an element

A parser that forgets what stands before the cursor reads the same tokens in the same way behind
any others. Only the end of a statement looks back, and a token of the statement stands there by
then. So elements are read the same wherever they begin, whatever the rules are.
-/

namespace Script.Parser

variable {α β : Type}

/-- With a token at the cursor, it makes no difference what stands before it, and where something
is found, the cursor is moved. -/
def Forgets (p : Parser α) : Prop :=
  ∀ c d : Cursor, c.rest = d.rest → c.rest ≠ [] →
    p.outcome c = p.outcome d ∧ ∀ a, (p.outcome c).1 = .ok a → c.index < (p.stop c).index

theorem Cursor.position_eq_of_rest {c d : Cursor} (h : c.rest = d.rest) (hne : c.rest ≠ []) :
    c.position = d.position := by
  rw [position, position, h, last_eq_of_rest h hne]

/-! ### Sequences and primitives -/

/-- Of a sequence only the first part has to forget, for it moves on. -/
theorem Forgets.bind {p : Parser α} (h : Forgets p) (f : α → Parser β) : Forgets (p >>= f) := by
  intro c d hcd hne
  obtain ⟨hsame, hpos⟩ := h c d hcd hne
  have hmoves : p.moves c = p.moves d := congrArg Prod.snd hsame
  cases hp : (p.outcome c).1 with
  | error fault =>
    rw [outcome_bind_of_error f hp, outcome_bind_of_error f (hsame ▸ hp), hmoves]
    exact ⟨rfl, nofun⟩
  | ok a =>
    have hstop : (p.stop c).Same (p.stop d) := by
      rw [stop, stop, ← hmoves]
      exact Cursor.same_moved_of_rest hcd hne (hpos a hp)
    have hafter : (f a).outcome (p.stop c) = (f a).outcome (p.stop d) := (f a).congr hstop
    have hbehind : (f a).moves (p.stop c) = (f a).moves (p.stop d) := congrArg Prod.snd hafter
    refine ⟨?_, fun b _ => ?_⟩
    · rw [outcome_bind_of_ok f hp, outcome_bind_of_ok f (hsame ▸ hp), hmoves, hafter, hbehind]
    · rw [stop_bind_of_ok f (run_eq_ok_iff.2 ⟨hp, rfl⟩)]
      exact Nat.lt_of_lt_of_le (hpos a hp) (Cursor.reaches_moved _ _).index_le

theorem Forgets.ite {p : Prop} [Decidable p] {q r : Parser α} (hq : Forgets q) (hr : Forgets r) :
    Forgets (if p then q else r) := by
  split
  · exact hq
  · exact hr

theorem Forgets.bind_stays {p : Parser α} {f : α → Parser β}
    (hp : ∀ c d : Cursor, c.rest = d.rest → c.rest ≠ [] →
      ∃ a, p.outcome c = (.ok a, []) ∧ p.outcome d = (.ok a, []) ∧ Forgets (f a)) :
    Forgets (p >>= f) := by
  intro c d hcd hne
  obtain ⟨a, hc, hd, hforgets⟩ := hp c d hcd hne
  have hstays : ∀ {e : Cursor}, p.outcome e = (.ok a, []) →
      (p >>= f).outcome e = (f a).outcome e := by
    intro e he
    rw [outcome_bind_of_ok f (congrArg Prod.fst he), stop, moves, he]
    rfl
  rw [stop, moves, hstays hc, hstays hd]
  exact hforgets c d hcd hne

theorem Forgets.bind_upcoming {f : List Token → Parser β}
    (h : ∀ token rest, Forgets (f (token :: rest))) : Forgets (upcoming >>= f) := by
  refine .bind_stays fun c d hcd hne => ?_
  obtain ⟨token, rest, hc⟩ := List.exists_cons_of_ne_nil hne
  exact ⟨c.rest, rfl, by rw [hcd]; rfl, by rw [hc]; exact h token rest⟩

theorem Forgets.bind_sees {text : String} {f : Bool → Parser β} (h : ∀ seen, Forgets (f seen)) :
    Forgets (sees text >>= f) :=
  .bind_stays fun c _ hcd _ => ⟨startsWith c.rest text, rfl, by rw [hcd]; rfl, h _⟩

private theorem Forgets.bind_here {f : Position → Parser β} (h : ∀ position, Forgets (f position)) :
    Forgets (here >>= f) := by
  refine .bind_stays fun c d hcd hne => ⟨c.position, rfl, ?_, h _⟩
  rw [Cursor.position_eq_of_rest hcd hne]
  rfl

theorem forgets_fail (kind : SyntaxError) : Forgets (fail kind : Parser α) := by
  intro c d hcd hne
  refine ⟨?_, nofun⟩
  simp only [fail, Cursor.position_eq_of_rest hcd hne]

theorem forgets_skip {n : Nat} (hn : 0 < n) : Forgets (skip n) :=
  fun _ _ _ _ => ⟨rfl, fun _ _ => Nat.lt_add_of_pos_right hn⟩

theorem forgets_token : Forgets token :=
  .bind_upcoming fun _ _ => (forgets_skip Nat.one_pos).bind _

theorem forgets_identifier : Forgets identifier := forgets_token.bind _

private theorem forgets_expect (text what : String) : Forgets (expect text what) :=
  .bind_sees fun _ => .ite (forgets_skip Nat.one_pos) (forgets_fail _)

/-! ### Expressions -/

/-- A rule is shown what stands at the cursor, and where it reads on, it moves on. -/
theorem Forgets.byRule_bind {rules : List Rule} {valuesOnly : Bool}
    {f : Option Element → Parser β} (h : Forgets (f none)) :
    Forgets (byRule rules valuesOnly >>= f) := by
  intro c d hcd hne
  rw [byRule, bind_assoc]
  refine Forgets.bind_upcoming (fun token rest => ?_) c d hcd hne
  cases Rule.first? rules valuesOnly (token :: rest) with
  | none => exact h
  | some rule =>
    simp only [bind_assoc]
    cases rule.parse (token :: rest) with
    | error fault => exact fun _ _ _ _ => ⟨rfl, fun _ h => by cases h⟩
    | ok r =>
      have hpos : 0 < min (max r.2 1) (token :: rest).length := by
        rw [List.length_cons]
        omega
      exact .bind_stays fun _ _ _ _ => ⟨r, rfl, rfl, (forgets_skip hpos).bind _⟩

private theorem forgets_plain (inner : Parser Value) : Forgets (plain inner) := by
  refine .bind_upcoming fun token rest => ?_
  refine .ite ((forgets_skip Nat.one_pos).bind _) (.ite ?_ ?_)
  · exact forgets_identifier.bind _
  · exact forgets_token.bind _

private theorem forgets_expression (rules : List Rule) : Forgets (expression rules) := by
  rw [expression_eq]
  exact .byRule_bind (forgets_plain _)

/-! ### Elements -/

private theorem Forgets.bind_modifiers {f : Modifiers → Parser β} (h : ∀ m, Forgets (f m)) :
    Forgets (modifiers >>= f) := by
  rw [modifiers, bind_assoc]
  refine .bind_upcoming fun token rest => ?_
  rw [modifiersBehind]
  split
  · split
    · rw [bind_assoc]
      exact (forgets_skip Nat.one_pos).bind _
    · exact (forgets_fail _).bind f
  · rw [pure_bind]
    exact h _

theorem forgets_function (inner : Parser (Option Element)) (exported : Bool)
    (position : Position) : Forgets (function inner exported position) :=
  (forgets_expect _ _).bind _

private theorem forgets_typeName : Forgets typeName := forgets_identifier.bind _

private theorem forgets_declaration (rules : List Rule) (inner : Parser (Option Element)) :
    Forgets (declaration rules inner) :=
  .bind_here fun _ => .bind_modifiers fun _ => .bind_sees fun _ =>
    .ite (.ite (forgets_fail _) (forgets_function _ _ _)) (forgets_typeName.bind _)

private theorem forgets_statement (rules : List Rule) (inner : Parser (Option Element))
    (token : Token) (rest : List Token) : Forgets (statement rules inner token rest) := by
  have hreturning : Forgets (returning rules) := forgets_token.bind _
  have hvalue : Forgets (valueStatement rules) := (forgets_expression rules).bind _
  have hassignment : Forgets (assignment rules) := forgets_identifier.bind _
  refine .ite (hreturning.bind _) (.ite (forgets_fail _) (.ite (hvalue.bind _) (.ite ?_ ?_)))
  · exact (forgets_declaration rules inner).bind _
  · refine .ite ?_ (.ite (hassignment.bind _) (forgets_fail _))
    exact (forgets_function _ _ _).bind _

private theorem forgets_element (rules : List Rule) : Forgets (element rules) := by
  rw [element_eq]
  refine .bind_upcoming fun token rest => .ite ((forgets_skip Nat.one_pos).bind _) ?_
  exact .byRule_bind ((forgets_statement rules _ token rest).bind _)

end Script.Parser

namespace Script

open Script.Parser

/-- What is read from a cursor on does not depend on what stands before it. -/
theorem readFrom_congr (rules : List Rule) (recover : Bool) {c d : Cursor}
    (hcd : c.rest = d.rest) : readFrom rules recover c = readFrom rules recover d := by
  by_cases hc : c.rest = []
  · rw [readFrom_nil hc, readFrom_nil (hcd ▸ hc)]
  · have hpos : 0 < c.rest.length := List.length_pos_iff.2 hc
    have hpos' : 0 < d.rest.length := hcd ▸ hpos
    obtain ⟨hsame, hmoved⟩ := forgets_element rules c d hcd hc
    have hmoves : (element rules).moves c = (element rules).moves d := congrArg Prod.snd hsame
    cases hrun : (element rules).run c with
    | ok r =>
      obtain ⟨element?, e⟩ := r
      obtain ⟨helement, rfl⟩ := run_eq_ok_iff.1 hrun
      have hrun' : (element rules).run d = .ok (element?, (element rules).stop d) :=
        run_eq_ok_iff.2 ⟨hsame ▸ helement, rfl⟩
      have hstop : ((element rules).stop c).rest = ((element rules).stop d).rest := by
        rw [stop, stop, ← hmoves]
        exact (Cursor.same_moved_of_rest hcd hc (hmoved element? helement)).rest_eq
      have hlt := advances_element rules _ _ _ hpos hrun
      rw [readFrom_of_ok hpos hrun, readFrom_of_ok hpos' hrun', readFrom_congr rules recover hstop]
    | error fault =>
      have hrun' : (element rules).run d = .error fault :=
        run_eq_error_iff.2 (hsame ▸ run_eq_error_iff.1 hrun)
      have hresume : (resume c).rest = (resume d).rest := by
        rw [resume, resume, Cursor.rest_advance, Cursor.rest_advance, hcd]
      have hlt := length_resume_lt hpos
      rw [readFrom_of_error hpos hrun, readFrom_of_error hpos' hrun',
        readFrom_congr rules recover hresume]
termination_by c.rest.length

end Script
