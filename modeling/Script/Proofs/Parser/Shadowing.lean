import Mathlib.Data.List.Infix
import Script.Program.Progress
/-!
# Rules that are never asked

Rules are asked in order, about the tokens from the cursor on. So lists of rules that answer alike
about every end of some tokens read these tokens alike. A rule behind others is idle where one of
these applies whenever it does, and then it might as well not be there.
-/

namespace Script.Parser

variable {α β : Type} {c d : Cursor}

def SameFrom (c : Cursor) (p q : Parser α) : Prop := ∀ d, c.Reaches d → p.run d = q.run d

/-! ### Sequences and recursion -/

theorem SameFrom.refl (c : Cursor) (p : Parser α) : SameFrom c p p := fun _ _ => rfl

private theorem SameFrom.of_reaches {p q : Parser α} (h : SameFrom c p q) (hd : c.Reaches d) :
    SameFrom d p q :=
  fun e he => h e (hd.trans he)

theorem SameFrom.bind {p q : Parser α} {f g : α → Parser β} (h : SameFrom c p q)
    (hfg : ∀ a, SameFrom c (f a) (g a)) : SameFrom c (p >>= f) (q >>= g) := by
  intro d hd
  rw [run_bind, run_bind, ← h d hd]
  cases hp : p.run d with
  | error fault => rfl
  | ok r =>
    obtain ⟨a, e⟩ := r
    exact hfg a e (hd.trans (p.reaches hp))

theorem SameFrom.bind_right {f g : α → Parser β} (p : Parser α)
    (hfg : ∀ a, SameFrom c (f a) (g a)) : SameFrom c (p >>= f) (p >>= g) :=
  (SameFrom.refl c p).bind hfg

theorem SameFrom.bind_left {p q : Parser α} (h : SameFrom c p q) (f : α → Parser β) :
    SameFrom c (p >>= f) (q >>= f) :=
  h.bind fun a => .refl c (f a)

theorem SameFrom.ite {b : Prop} [Decidable b] {p q p' q' : Parser α} (h : SameFrom c p p')
    (h' : SameFrom c q q') : SameFrom c (if b then p else q) (if b then p' else q') := by
  split
  · exact h
  · exact h'

private theorem SameFrom.rounds {body body' : Parser α → Parser α}
    (h : ∀ p q, SameFrom c p q → SameFrom c (body p) (body' q)) (n : Nat) :
    SameFrom c (rounds body n) (rounds body' n) := by
  induction n with
  | zero => exact .refl c _
  | succ n ih => exact h _ _ ih

theorem SameFrom.recursive {body body' : Parser α → Parser α}
    (h : ∀ p q, SameFrom c p q → SameFrom c (body p) (body' q)) :
    SameFrom c (recursive body) (recursive body') :=
  fun d hd => SameFrom.rounds h (d.rest.length + 1) d hd

/-! ### Expressions -/

private theorem SameFrom.parenthesized {p q : Parser α} (h : SameFrom c p q) :
    SameFrom c (parenthesized p) (parenthesized q) := by
  refine .bind_right _ fun _ => .bind_right _ fun closed => .ite (.refl c _) ?_
  refine .recursive fun r s hrs => h.bind fun first => .bind_right _ fun comma => ?_
  exact .ite (hrs.bind_left _) (.refl c _)

private theorem SameFrom.plain {p q : Parser Value} (h : SameFrom c p q) :
    SameFrom c (plain p) (plain q) := by
  refine .bind_right _ fun tokens => ?_
  cases tokens with
  | nil => exact .refl c _
  | cons token rest =>
    refine .ite (.bind_right _ fun _ => h.bind_left _) (.ite ?_ (.refl c _))
    exact .bind_right _ fun name => h.parenthesized.bind_left _

def SameRules (c : Cursor) (rules rules' : List Rule) : Prop :=
  ∀ valuesOnly, SameFrom c (byRule rules valuesOnly) (byRule rules' valuesOnly)

private theorem SameRules.of_reaches {rules rules' : List Rule} (h : SameRules c rules rules')
    (hd : c.Reaches d) : SameRules d rules rules' :=
  fun valuesOnly => (h valuesOnly).of_reaches hd

section

variable {rules rules' : List Rule}

theorem SameRules.expression (h : SameRules c rules rules') :
    SameFrom c (expression rules) (expression rules') := by
  refine .recursive fun p q hpq => (h true).bind fun element? => ?_
  cases element? with
  | none => exact hpq.plain
  | some element => exact .refl c _

/-! ### Elements -/

private theorem SameRules.initializer (h : SameRules c rules rules') (constant : Bool) :
    SameFrom c (initializer rules constant) (initializer rules' constant) :=
  .bind_right _ fun _ => .ite (.refl c _) (.bind_right _ fun _ => h.expression.bind_left _)

theorem SameFrom.function {p q : Parser (Option Element)} (h : SameFrom c p q) (exported : Bool)
    (position : Position) :
    SameFrom c (function p exported position) (function q exported position) := by
  have hblock : SameFrom c (Parser.recursive (blockBody p)) (Parser.recursive (blockBody q)) := by
    refine .recursive fun r s hrs => .bind_right _ fun tokens => ?_
    cases tokens with
    | nil => exact .refl c _
    | cons token rest => exact .ite (.refl c _) (h.bind fun _ => hrs.bind_left _)
  refine .bind_right _ fun _ => .bind_right _ fun name => .bind_right _ fun parameters => ?_
  exact .bind_right _ fun returnType => .bind_right _ fun _ => hblock.bind_left _

private theorem SameRules.declaration (h : SameRules c rules rules') {p q : Parser (Option Element)}
    (hpq : SameFrom c p q) : SameFrom c (declaration rules p) (declaration rules' q) := by
  refine .bind_right _ fun position => .bind_right _ fun modifiers => .bind_right _ fun func => ?_
  refine .ite (.ite (.refl c _) (hpq.function _ _)) ?_
  exact .bind_right _ fun type => .bind_right _ fun name => (h.initializer _).bind_left _

private theorem SameRules.statement (h : SameRules c rules rules') {p q : Parser (Option Element)}
    (hpq : SameFrom c p q) (token : Token) (rest : List Token) :
    SameFrom c (statement rules p token rest) (statement rules' q token rest) := by
  have hvalue : SameFrom c (valueStatement rules) (valueStatement rules') :=
    h.expression.bind_left _
  have hreturning : SameFrom c (returning rules) (returning rules') :=
    .bind_right _ fun keyword => h.expression.bind_left _
  have hassignment : SameFrom c (assignment rules) (assignment rules') :=
    .bind_right _ fun name => .bind_right _ fun _ => h.expression.bind_left _
  refine .ite (hreturning.bind_left _) (.ite (.refl c _) (.ite (hvalue.bind_left _) ?_))
  refine .ite ((h.declaration hpq).bind_left _) (.ite ((hpq.function _ _).bind_left _) ?_)
  exact .ite (hassignment.bind_left _) (.refl c _)

private theorem SameRules.element (h : SameRules c rules rules') :
    SameFrom c (element rules) (element rules') := by
  refine .recursive fun p q hpq => .bind_right _ fun tokens => ?_
  cases tokens with
  | nil => exact .refl c _
  | cons token rest =>
    refine .ite (.refl c _) ((h false).bind fun element? => ?_)
    cases element? with
    | none => exact (h.statement hpq token rest).bind_left _
    | some element => exact .refl c _

end

end Script.Parser

namespace Script

open Script.Parser

/-! ### Programs -/

section

variable {rules rules' : List Rule}

/-- Rules that answer alike from a cursor on read the same elements and find the same errors. -/
theorem readElements_congr (recover : Bool) (n : Nat) {c : Cursor}
    (h : SameRules c rules rules') :
    readElements rules recover n c = readElements rules' recover n c := by
  induction n generalizing c with
  | zero => rfl
  | succ n ih =>
    rw [readElements, readElements, ← h.element c (.refl c)]
    split
    · rfl
    · cases hrun : (element rules).run c with
      | ok r =>
        obtain ⟨element?, d⟩ := r
        have hd := (element rules).reaches hrun
        simp only [ih (h.of_reaches hd)]
      | error fault =>
        have hresume : c.Reaches (resume c) := Cursor.reaches_advance _ c
        simp only [ih (h.of_reaches hresume)]

/-- Rules of which the same one applies, whatever is left of the tokens, read the tokens alike. -/
theorem readProgram_congr (recover : Bool) {tokens : List Token}
    (h : ∀ window, window <:+ tokens → ∀ valuesOnly,
      Rule.first? rules valuesOnly window = Rule.first? rules' valuesOnly window) :
    readProgram rules recover tokens = readProgram rules' recover tokens := by
  apply readElements_congr
  intro valuesOnly c hc
  rw [byRule, byRule, run_bind_of_ok _ (run_upcoming c), run_bind_of_ok _ (run_upcoming c),
    h c.rest hc.suffix valuesOnly]

end

/-! ### Idle rules -/

namespace Rule

/-- If the rule applies, so does one of the others, which produces a value if the rule does. -/
def IsShadowed (rule : Rule) (rules : List Rule) (window : Window) : Prop :=
  rule.applies window = true → ∃ other ∈ rules, other.applies window = true ∧
    (rule.producesValue = true → other.producesValue = true)

instance (rule : Rule) (rules : List Rule) (window : Window) :
    Decidable (rule.IsShadowed rules window) :=
  inferInstanceAs (Decidable (_ → _))

private theorem IsShadowed.first?_append {rule : Rule} {rules : List Rule} {window : Window}
    (h : rule.IsShadowed rules window) (valuesOnly : Bool) :
    first? (rules ++ [rule]) valuesOnly window = first? rules valuesOnly window := by
  rw [first?, first?, List.find?_append]
  cases hfind : rules.find? _ with
  | some other => rfl
  | none =>
    rw [Option.none_or, List.find?_eq_none]
    intro r hr hasked
    rw [List.mem_singleton.1 hr, Bool.and_eq_true] at hasked
    obtain ⟨other, hother, happlies, hvalue⟩ := h hasked.2
    refine List.find?_eq_none.1 hfind other hother ?_
    rw [Bool.and_eq_true]
    refine ⟨?_, happlies⟩
    rw [Bool.or_eq_true] at hasked ⊢
    exact hasked.1.imp_left hvalue

end Rule

/-- A rule behind others changes nothing if one of these applies wherever it does, and produces a
value if it does. -/
theorem Settings.parse_append_shadowed (settings : Settings) {rule : Rule} {tokens : List Token}
    (source : String)
    (h : ∀ window, window <:+ tokens → rule.IsShadowed settings.rules window) :
    parse { settings with rules := settings.rules ++ [rule] } tokens source =
      settings.parse tokens source := by
  have hprogram : readProgram (settings.rules ++ [rule]) settings.recover tokens =
      readProgram settings.rules settings.recover tokens := by
    apply readProgram_congr
    intro window hwindow valuesOnly
    exact (h window hwindow).first?_append valuesOnly
  rw [parse, parse]
  simp only [hprogram]
  rfl

/-- A rule that fails on anything that is counted up, behind the one that counts up variables. -/
theorem Settings.parse_append_shadowed_failing :
    let failing : Rule :=
      { name := "failing"
        applies := fun window => startsWith (window.drop 1) "++"
        parse := fun window => .error (window.fault 0 .notAnExpression)
        producesValue := true }
    let tokens := ["int", "y", "=", "x", "++", ";", "x", "++", ";"].map (Token.mk {})
    (∀ window, window <:+ tokens → failing.IsShadowed Rule.defaults window) ∧
      parse { rules := Rule.defaults ++ [failing] } tokens "" = parse {} tokens "" ∧
      ∃ parsed, parse {} tokens "" = .ok parsed ∧ parsed.root.elements.length = 2 := by
  intro failing tokens
  have hshadowed : ∀ window, window <:+ tokens → failing.IsShadowed Rule.defaults window := by
    intro window hwindow
    rw [← List.mem_tails] at hwindow
    revert window
    decide
  have hlength : (parse {} tokens "").toOption.map (·.root.elements.length) = some 2 := by
    decide +kernel
  exact ⟨hshadowed, parse_append_shadowed {} "" hshadowed, exists_parse_of_map_eq hlength⟩

end Script
