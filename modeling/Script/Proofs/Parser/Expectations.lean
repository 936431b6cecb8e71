import Script.Parser.Element
import Script.Proofs.Grammar.Failing
/-!
# What is said to be expected

Where something else stands than what is due, the error says what is. What it says is fixed by the
production that fails, so a source has no part in it, and there are only these ways to say it.
-/

namespace Script

/-- What can be due, in the words of an error. -/
def SyntaxError.dues : List String :=
  ["'('", "')'", "',' or ')'", "'\x7b'", "'\x7d'", "'func'", "'='", "';'", "';' or '='"]

/-- If the error says what is expected, this is something that can be due. -/
def SyntaxError.ExpectsDue : SyntaxError → Prop
  | .expected what => what ∈ dues
  | _ => True

private theorem SyntaxError.expectsDue_of_quoted {kind : SyntaxError} {text : String}
    (h : kind.quoted? = some text) : kind.ExpectsDue := by
  cases kind with
  | expected what => cases h
  | _ => trivial

def Rule.Raises (kinds : SyntaxError → Prop) (rule : Rule) : Prop :=
  ∀ window fault, rule.parse window = .error fault → kinds fault.kind

namespace Parser

open SyntaxError (ExpectsDue dues)

variable {α β : Type}

def Raises (kinds : SyntaxError → Prop) (p : Parser α) : Prop :=
  ∀ c fault, p.run c = .error fault → kinds fault.kind

section

variable {kinds : SyntaxError → Prop} {p q : Parser α} {f : α → Parser β}

/-! ### Sequences and primitives -/

theorem raises_of_ok {result : Cursor → α × Cursor} (h : ∀ c, p.run c = .ok (result c)) :
    Raises kinds p := by
  intro c fault hrun
  rw [h] at hrun
  cases hrun

theorem raises_pure (a : α) : Raises kinds (pure a : Parser α) := raises_of_ok (run_pure a)

theorem raises_upcoming : Raises kinds upcoming := raises_of_ok run_upcoming

private theorem raises_previous : Raises kinds previous := raises_of_ok run_previous

theorem raises_here : Raises kinds here := raises_of_ok run_here

theorem raises_skip (n : Nat) : Raises kinds (skip n) := raises_of_ok (run_skip n)

theorem raises_sees (text : String) : Raises kinds (sees text) := raises_of_ok (run_sees text)

theorem raises_failAt {kind : SyntaxError} (h : kinds kind) (position : Position) :
    Raises kinds (failAt kind position : Parser α) := by
  rintro c fault ⟨⟩
  exact h

theorem raises_fail {kind : SyntaxError} (h : kinds kind) :
    Raises kinds (fail kind : Parser α) := by
  rintro c fault ⟨⟩
  exact h

theorem Raises.bind (hp : Raises kinds p) (hf : ∀ a, Raises kinds (f a)) :
    Raises kinds (p >>= f) := by
  intro c fault hrun
  rcases run_bind_eq_error.1 hrun with hrun | ⟨a, d, -, hrun⟩
  · exact hp c fault hrun
  · exact hf a d fault hrun

theorem Raises.bind_pure (hp : Raises kinds p) (g : α → β) :
    Raises kinds (p >>= fun a => pure (g a)) :=
  hp.bind fun a => raises_pure (g a)

theorem Raises.ite {b : Prop} [Decidable b] (hp : Raises kinds p) (hq : Raises kinds q) :
    Raises kinds (if b then p else q) := by
  split
  · exact hp
  · exact hq

theorem raises_accept (text : String) : Raises kinds (accept text) :=
  (raises_sees text).bind fun _ => .ite ((raises_skip 1).bind fun _ => raises_pure true)
    (raises_pure false)

theorem raises_token (hend : kinds .unexpectedEnd) : Raises kinds token := by
  refine raises_upcoming.bind fun tokens => ?_
  cases tokens with
  | nil => exact raises_fail hend
  | cons t rest => exact (raises_skip 1).bind fun _ => raises_pure t

/-- A recursion raises what its body does. Running out of rounds would be one more way to fail, and
is as good as any. -/
theorem raises_recursive {body : Parser α → Parser α} (hend : kinds .unexpectedEnd)
    (hbody : ∀ more, Raises kinds more → Raises kinds (body more)) :
    Raises kinds (recursive body) := by
  have hrounds : ∀ n, Raises kinds (rounds body n) := by
    intro n
    induction n with
    | zero => exact raises_fail hend
    | succ n ih => exact hbody _ ih
  intro c fault hrun
  exact hrounds _ c fault hrun

end

/-! ### Types and lists -/

theorem raises_expect {what : String} (h : what ∈ dues) (text : String) :
    Raises ExpectsDue (expect text what) :=
  (raises_sees text).bind fun _ => .ite (raises_skip 1) (raises_fail h)

theorem raises_identifier : Raises ExpectsDue identifier := by
  refine (raises_token trivial).bind fun t => ?_
  split
  · exact raises_pure t
  · exact raises_failAt trivial _

private theorem raises_suffixes : Raises ExpectsDue (recursive suffixesBody) :=
  raises_recursive trivial fun _ hmore =>
    (raises_accept _).bind fun _ => .ite (hmore.bind_pure _) <|
      raises_upcoming.bind fun _ =>
        .ite ((raises_skip 2).bind fun _ => hmore.bind_pure _) (raises_pure _)

theorem raises_typeName : Raises ExpectsDue typeName :=
  raises_identifier.bind fun _ => raises_suffixes.bind_pure _

private theorem raises_parameter : Raises ExpectsDue parameter :=
  raises_here.bind fun _ => raises_typeName.bind fun _ => raises_identifier.bind_pure _

theorem raises_parenthesized {item : Parser α} (hitem : Raises ExpectsDue item) :
    Raises ExpectsDue (parenthesized item) := by
  have hitems : Raises ExpectsDue (recursive (itemsBody item)) :=
    raises_recursive trivial fun more hmore =>
      hitem.bind fun first => (raises_accept _).bind fun _ => .ite (hmore.bind_pure _) <|
        (raises_expect (by decide) _).bind fun _ => raises_pure [first]
  exact (raises_expect (by decide) _).bind fun _ =>
    (raises_accept _).bind fun _ => .ite (raises_pure []) hitems

private theorem raises_modifiersBehind (tokens : List Token) (seen : Modifiers) :
    Raises ExpectsDue (modifiersBehind seen tokens) := by
  induction tokens generalizing seen with
  | nil => exact raises_pure seen
  | cons token rest ih =>
    refine .ite ?_ (raises_pure seen)
    split
    · exact (raises_skip 1).bind fun _ => ih _
    · exact raises_fail trivial

private theorem raises_modifiers : Raises ExpectsDue modifiers :=
  raises_upcoming.bind fun tokens => raises_modifiersBehind tokens _

theorem raises_finish : Raises ExpectsDue finish :=
  raises_previous.bind fun _ => .ite (raises_pure ()) (raises_expect (by decide) _)

/-! ### Values -/

private theorem raises_atom : Raises ExpectsDue atom := by
  refine (raises_token trivial).bind fun t => ?_
  split
  · exact raises_pure _
  · next kind hkind =>
    refine .ite (raises_pure _) (raises_failAt ?_ _)
    exact SyntaxError.expectsDue_of_quoted (Literal.quoted?_of_ofToken hkind)

private theorem raises_plain {inner : Parser Value} (hinner : Raises ExpectsDue inner) :
    Raises ExpectsDue (plain inner) := by
  refine raises_upcoming.bind fun tokens => ?_
  cases tokens with
  | nil => exact raises_fail trivial
  | cons t rest =>
    refine .ite ?_ (.ite ?_ raises_atom)
    · exact (raises_skip 1).bind fun _ => hinner.bind fun value =>
        (raises_expect (by decide) _).bind fun _ => raises_pure value
    · exact raises_identifier.bind fun _ => (raises_parenthesized hinner).bind_pure _

section

variable {rules : List Rule} (hrules : ∀ rule ∈ rules, rule.Raises ExpectsDue)

include hrules

theorem raises_byRule (valuesOnly : Bool) :
    Raises ExpectsDue (byRule rules valuesOnly) := by
  refine raises_upcoming.bind fun window => ?_
  split
  · exact raises_pure none
  · next rule hrule =>
    refine .bind ?_ fun _ => (raises_skip _).bind fun _ => raises_pure _
    intro c fault hrun
    rw [run_ofExcept] at hrun
    cases hparse : rule.parse window with
    | ok r => simp [hparse, Except.map] at hrun
    | error fault' =>
      simp only [hparse, Except.map, Except.error.injEq] at hrun
      subst hrun
      exact hrules rule (List.mem_of_find?_eq_some hrule) window _ hparse

theorem raises_expression : Raises ExpectsDue (expression rules) := by
  refine raises_recursive trivial fun inner hinner => ?_
  refine (raises_byRule hrules true).bind fun element? => ?_
  split
  · exact raises_plain hinner
  · split
    · exact raises_pure _
    · exact raises_failAt trivial _

/-! ### Elements -/

variable {element : Parser (Option Element)} (helement : Raises ExpectsDue element)

include helement in
omit hrules in
theorem raises_function (exported : Bool) (position : Position) :
    Raises ExpectsDue (function element exported position) := by
  have hblock : Raises ExpectsDue (recursive (blockBody element)) := by
    refine raises_recursive trivial fun more hmore => raises_upcoming.bind fun tokens => ?_
    cases tokens with
    | nil => exact raises_fail (show _ ∈ dues by decide)
    | cons t rest =>
      exact .ite ((raises_skip 1).bind fun _ => raises_pure [])
        (helement.bind fun _ => hmore.bind_pure _)
  exact (raises_expect (by decide) _).bind fun _ => raises_identifier.bind fun _ =>
    (raises_parenthesized raises_parameter).bind fun _ => raises_typeName.bind fun _ =>
      (raises_expect (by decide) _).bind fun _ => hblock.bind_pure _

private theorem raises_initializer (constant : Bool) :
    Raises ExpectsDue (initializer rules constant) := by
  refine (raises_sees _).bind fun _ => .ite (.ite (raises_fail trivial) ?_) ?_
  · exact (raises_skip 1).bind fun _ => raises_pure none
  · exact (raises_expect (by decide) _).bind fun _ => (raises_expression hrules).bind fun value =>
      raises_finish.bind fun _ => raises_pure (some value)

include helement in
private theorem raises_declaration : Raises ExpectsDue (declaration rules element) := by
  refine raises_here.bind fun position => raises_modifiers.bind fun modifiers => ?_
  refine (raises_sees _).bind fun _ => .ite ?_ ?_
  · exact .ite (raises_fail trivial) (raises_function helement _ _)
  · exact raises_typeName.bind fun _ => raises_identifier.bind fun _ =>
      (raises_initializer hrules _).bind_pure _

private theorem raises_assignment : Raises ExpectsDue (assignment rules) :=
  raises_identifier.bind fun _ => (raises_expect (by decide) _).bind fun _ =>
    (raises_expression hrules).bind fun _ => raises_finish.bind_pure _

private theorem raises_returning : Raises ExpectsDue (returning rules) :=
  (raises_token trivial).bind fun _ => (raises_expression hrules).bind fun _ =>
    raises_finish.bind_pure _

private theorem raises_valueStatement : Raises ExpectsDue (valueStatement rules) :=
  (raises_expression hrules).bind fun _ => raises_finish.bind_pure _

include helement in
private theorem raises_statement (token : Token) (rest : List Token) :
    Raises ExpectsDue (statement rules element token rest) := by
  unfold Parser.statement
  refine .ite ?_ (.ite (raises_fail trivial) (.ite ?_ (.ite ?_ (.ite ?_ (.ite ?_ ?_)))))
  · exact (raises_returning hrules).bind_pure _
  · exact (raises_valueStatement hrules).bind_pure _
  · exact (raises_declaration hrules helement).bind_pure _
  · exact (raises_function helement _ _).bind_pure _
  · exact (raises_assignment hrules).bind_pure _
  · exact raises_fail trivial

/-- If the rules say nothing else to be expected, the parser does not either. -/
theorem raises_element : Raises ExpectsDue (Parser.element rules) := by
  refine raises_recursive trivial fun inner hinner => raises_upcoming.bind fun tokens => ?_
  cases tokens with
  | nil => exact raises_pure none
  | cons t rest =>
    refine .ite ((raises_skip 1).bind fun _ => raises_pure none) ?_
    refine (raises_byRule hrules false).bind fun element? => ?_
    split
    · exact raises_pure _
    · exact (raises_statement hrules hinner t rest).bind_pure _

end

private theorem raises_step : Rule.step.Raises ExpectsDue := by
  intro window fault h
  unfold Rule.step Rule.stepParse at h
  simp only at h
  split at h
  · cases h
    trivial
  · split at h
    · cases h
      trivial
    · cases h

theorem raises_element_defaults : Raises ExpectsDue (element Rule.defaults) := by
  refine raises_element fun rule hrule => ?_
  obtain rfl := List.mem_singleton.1 hrule
  exact raises_step

end Parser

end Script
