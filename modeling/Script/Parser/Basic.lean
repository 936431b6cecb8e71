import Script.Parser.Cursor
import Script.SyntaxError
/-!
# Parsers

A parser reads some of the tokens at a cursor. It gives a result or the fault that it found, and
leaves the cursor further on either way; that it never moves back is part of what a parser is.
Parsers are built from a few primitives by sequencing, and by a recursion that ends because tokens
run out.
-/

namespace Script

structure Fault where
  kind : SyntaxError
  position : Position
  /-- The text and the label it is about, where a rule says that they are not those of the
  program. -/
  origin? : Option (String × Option String) := none
deriving DecidableEq, Repr

open Script.Parser in
structure Parser (α : Type) where
  /-- What is found at a cursor, and how far the cursor is moved at each step until then. -/
  outcome : Cursor → Except Fault α × List Nat
  /-- The tokens around the cursor are all that matters, not how many stand before it. -/
  congr : ∀ {c d}, c.Same d → outcome c = outcome d

namespace Parser

variable {α β : Type}

theorem ext {p q : Parser α} (h : ∀ c, p.outcome c = q.outcome c) : p = q := by
  cases p
  cases q
  congr
  exact funext h

/-! ### Runs -/

def moves (p : Parser α) (c : Cursor) : List Nat := (p.outcome c).2

/-- The cursor that is left, be it with a result or with a fault. -/
def stop (p : Parser α) (c : Cursor) : Cursor := c.moved (p.moves c)

def visited (p : Parser α) (c : Cursor) : List Cursor := c.along (p.moves c)

def run (p : Parser α) (c : Cursor) : Except Fault (α × Cursor) :=
  match p.outcome c with
  | (.ok a, moves) => .ok (a, c.moved moves)
  | (.error fault, _) => .error fault

theorem run_eq_ok_iff {p : Parser α} {c d : Cursor} {a : α} :
    p.run c = .ok (a, d) ↔ (p.outcome c).1 = .ok a ∧ d = p.stop c := by
  rw [run, stop, moves]
  rcases p.outcome c with ⟨_ | b, ms⟩
  · simp
  · simp [eq_comm]

theorem run_eq_error_iff {p : Parser α} {c : Cursor} {fault : Fault} :
    p.run c = .error fault ↔ (p.outcome c).1 = .error fault := by
  rw [run]
  rcases p.outcome c with ⟨_ | b, ms⟩ <;> simp

theorem reaches (p : Parser α) {c d : Cursor} {a : α} (h : p.run c = .ok (a, d)) :
    c.Reaches d := by
  rw [(run_eq_ok_iff.1 h).2]
  exact Cursor.reaches_moved c _

/-! ### Sequences -/

instance : Monad Parser where
  pure a := ⟨fun _ => (.ok a, []), fun _ => rfl⟩
  bind p f :=
    { outcome := fun c =>
        match p.outcome c with
        | (.error fault, moves) => (.error fault, moves)
        | (.ok a, moves) =>
          match (f a).outcome (c.moved moves) with
          | (result, moves') => (result, moves ++ moves')
      congr := by
        intro c d h
        rw [p.congr h]
        rcases p.outcome d with ⟨_ | a, moves⟩
        · rfl
        · simp only [(f a).congr (h.moved moves)] }

theorem outcome_bind_of_error {p : Parser α} {c : Cursor} {fault : Fault} (f : α → Parser β)
    (h : (p.outcome c).1 = .error fault) : (p >>= f).outcome c = (.error fault, p.moves c) := by
  show (match p.outcome c with | (.error fault, moves) => _ | (.ok a, moves) => _) = _
  rw [moves]
  rcases hp : p.outcome c with ⟨_ | a, ms⟩
  · cases hp ▸ h
    rfl
  · cases hp ▸ h

theorem outcome_bind_of_ok {p : Parser α} {c : Cursor} {a : α} (f : α → Parser β)
    (h : (p.outcome c).1 = .ok a) :
    (p >>= f).outcome c = (((f a).outcome (p.stop c)).1, p.moves c ++ (f a).moves (p.stop c)) := by
  show (match p.outcome c with | (.error fault, moves) => _ | (.ok a, moves) => _) = _
  rw [stop, moves, moves]
  rcases hp : p.outcome c with ⟨_ | b, ms⟩
  · cases hp ▸ h
  · cases hp ▸ h
    rfl

theorem moves_bind_of_ok {p : Parser α} {c : Cursor} {a : α} (f : α → Parser β)
    (h : (p.outcome c).1 = .ok a) :
    (p >>= f).moves c = p.moves c ++ (f a).moves (p.stop c) :=
  congrArg Prod.snd (outcome_bind_of_ok f h)

theorem stop_bind_of_error {p : Parser α} {c : Cursor} {fault : Fault} (f : α → Parser β)
    (h : p.run c = .error fault) : (p >>= f).stop c = p.stop c := by
  rw [stop, moves, outcome_bind_of_error f (run_eq_error_iff.1 h), stop]

theorem stop_bind_of_ok {p : Parser α} {c d : Cursor} {a : α} (f : α → Parser β)
    (h : p.run c = .ok (a, d)) : (p >>= f).stop c = (f a).stop d := by
  obtain ⟨ha, rfl⟩ := run_eq_ok_iff.1 h
  rw [stop, moves_bind_of_ok f ha, Cursor.moved_append, stop, stop]

@[simp] theorem run_pure (a : α) (c : Cursor) : (pure a : Parser α).run c = .ok (a, c) := rfl

theorem run_bind_of_error {p : Parser α} {c : Cursor} {fault : Fault} (f : α → Parser β)
    (h : p.run c = .error fault) : (p >>= f).run c = .error fault := by
  rw [run_eq_error_iff, outcome_bind_of_error f (run_eq_error_iff.1 h)]

theorem run_bind_of_ok {p : Parser α} {c d : Cursor} {a : α} (f : α → Parser β)
    (h : p.run c = .ok (a, d)) : (p >>= f).run c = (f a).run d := by
  have hstop := stop_bind_of_ok f h
  obtain ⟨ha, rfl⟩ := run_eq_ok_iff.1 h
  cases hf : (f a).run (p.stop c) with
  | error fault =>
    rw [run_eq_error_iff] at hf ⊢
    rw [outcome_bind_of_ok f ha, hf]
  | ok r =>
    obtain ⟨hb, hd⟩ := run_eq_ok_iff.1 hf
    refine run_eq_ok_iff.2 ⟨?_, hd.trans hstop.symm⟩
    rw [outcome_bind_of_ok f ha, hb]

theorem run_bind (p : Parser α) (f : α → Parser β) (c : Cursor) :
    (p >>= f).run c =
      match p.run c with
      | .error fault => .error fault
      | .ok (a, d) => (f a).run d := by
  cases h : p.run c with
  | error fault => exact run_bind_of_error f h
  | ok r => exact run_bind_of_ok f h

theorem run_bind_eq_ok {p : Parser α} {f : α → Parser β} {c e : Cursor} {b : β} :
    (p >>= f).run c = .ok (b, e) ↔
      ∃ a d, p.run c = .ok (a, d) ∧ (f a).run d = .ok (b, e) := by
  rw [run_bind]
  cases h : p.run c with
  | error fault => simp
  | ok r =>
    obtain ⟨a, d⟩ := r
    constructor
    · exact fun h' => ⟨a, d, rfl, h'⟩
    · rintro ⟨a', d', h1, h2⟩
      cases h1
      exact h2

theorem run_bind_eq_error {p : Parser α} {f : α → Parser β} {c : Cursor} {fault : Fault} :
    (p >>= f).run c = .error fault ↔
      p.run c = .error fault ∨ ∃ a d, p.run c = .ok (a, d) ∧ (f a).run d = .error fault := by
  rw [run_bind]
  cases h : p.run c with
  | error fault' => simp
  | ok r =>
    obtain ⟨a, d⟩ := r
    constructor
    · exact fun h' => .inr ⟨a, d, rfl, h'⟩
    · rintro (h1 | ⟨a', d', h1, h2⟩)
      · cases h1
      · cases h1
        exact h2

theorem outcome_bind_congr {p q : Parser α} {f g : α → Parser β} {c : Cursor}
    (h : p.outcome c = q.outcome c)
    (hfg : ∀ a d, p.run c = .ok (a, d) → (f a).outcome d = (g a).outcome d) :
    (p >>= f).outcome c = (q >>= g).outcome c := by
  have hmoves : p.moves c = q.moves c := congrArg Prod.snd h
  have hstop : p.stop c = q.stop c := by rw [stop, stop, hmoves]
  cases hp : (p.outcome c).1 with
  | error fault => rw [outcome_bind_of_error f hp, outcome_bind_of_error g (h ▸ hp), hmoves]
  | ok a =>
    have hsame := hfg a (p.stop c) (run_eq_ok_iff.2 ⟨hp, rfl⟩)
    have hafter : (f a).moves (p.stop c) = (g a).moves (p.stop c) := congrArg Prod.snd hsame
    rw [outcome_bind_of_ok f hp, outcome_bind_of_ok g (h ▸ hp), hsame, hafter, hmoves, hstop]

private theorem outcome_bind_assoc {γ : Type} (p : Parser α) (f : α → Parser β) (g : β → Parser γ)
    (c : Cursor) : (p >>= f >>= g).outcome c = (p >>= fun a => f a >>= g).outcome c := by
  cases hp : (p.outcome c).1 with
  | error fault =>
    have hpf := outcome_bind_of_error f hp
    rw [outcome_bind_of_error _ hp, outcome_bind_of_error g (congrArg Prod.fst hpf), moves, hpf]
  | ok a =>
    have hpf := outcome_bind_of_ok f hp
    have hstop := stop_bind_of_ok f (run_eq_ok_iff.2 ⟨hp, rfl⟩)
    rw [outcome_bind_of_ok _ hp]
    cases hf : ((f a).outcome (p.stop c)).1 with
    | error fault =>
      have hfg := outcome_bind_of_error g hf
      rw [outcome_bind_of_error g (by rw [hpf, hf]), moves_bind_of_ok f hp, hfg]
      exact congrArg (fun after => (_, p.moves c ++ after)) (congrArg Prod.snd hfg).symm
    | ok b =>
      rw [outcome_bind_of_ok g (by rw [hpf, hf]), hstop, moves_bind_of_ok f hp,
        outcome_bind_of_ok g hf, moves_bind_of_ok g hf, List.append_assoc]

instance : LawfulMonad Parser := LawfulMonad.mk' Parser
  (fun p => ext fun c => by
    show (p >>= pure).outcome c = p.outcome c
    cases hp : (p.outcome c).1 with
    | error fault => rw [outcome_bind_of_error _ hp, ← hp, moves]
    | ok a =>
      rw [outcome_bind_of_ok _ hp]
      show (Except.ok a, p.moves c ++ []) = p.outcome c
      rw [List.append_nil, ← hp, moves])
  (fun _ _ => rfl)
  (fun p f g => ext fun c => outcome_bind_assoc p f g c)

/-! ### Primitives -/

def failAt (kind : SyntaxError) (position : Position) : Parser α :=
  ⟨fun _ => (.error { kind, position }, []), fun _ => rfl⟩

def fail (kind : SyntaxError) : Parser α :=
  ⟨fun c => (.error { kind, position := c.position }, []), fun h => by rw [h.position_eq]⟩

def ofExcept (result : Except Fault α) : Parser α := ⟨fun _ => (result, []), fun _ => rfl⟩

def upcoming : Parser (List Token) := ⟨fun c => (.ok c.rest, []), fun h => by rw [h.rest_eq]⟩

def previous : Parser (Option Token) :=
  ⟨fun c => (.ok c.previous, []), fun h => by rw [h.previous_eq]⟩

def here : Parser Position := ⟨fun c => (.ok c.position, []), fun h => by rw [h.position_eq]⟩

/-- Moves on by some tokens, whether or not there are so many. -/
def skip (n : Nat) : Parser Unit := ⟨fun _ => (.ok (), [n]), fun _ => rfl⟩

@[simp] theorem run_failAt (kind : SyntaxError) (position : Position) (c : Cursor) :
    (failAt kind position : Parser α).run c = .error { kind, position } := rfl

@[simp] theorem run_fail (kind : SyntaxError) (c : Cursor) :
    (fail kind : Parser α).run c = .error { kind, position := c.position } := rfl

@[simp] theorem run_ofExcept (result : Except Fault α) (c : Cursor) :
    (ofExcept result).run c = result.map (·, c) := by
  cases result <;> rfl

@[simp] theorem run_upcoming (c : Cursor) : upcoming.run c = .ok (c.rest, c) := rfl

@[simp] theorem run_previous (c : Cursor) : previous.run c = .ok (c.previous, c) := rfl

@[simp] theorem run_here (c : Cursor) : here.run c = .ok (c.position, c) := rfl

@[simp] theorem run_skip (n : Nat) (c : Cursor) : (skip n).run c = .ok ((), c.advance n) := rfl

/-! ### Tokens -/

def startsWith (tokens : List Token) (text : String) : Bool := tokens.head?.any (·.is text)

@[simp] theorem startsWith_nil (text : String) : startsWith [] text = false := rfl

@[simp] theorem startsWith_cons (token : Token) (rest : List Token) (text : String) :
    startsWith (token :: rest) text = token.is text := rfl

def sees (text : String) : Parser Bool := return startsWith (← upcoming) text

def accept (text : String) : Parser Bool := do
  if ← sees text then do
    skip 1
    return true
  else return false

def expect (text what : String) : Parser Unit := do
  if ← sees text then skip 1 else fail (.expected what)

def token : Parser Token := do
  match ← upcoming with
  | [] => fail .unexpectedEnd
  | token :: _ =>
    skip 1
    return token

def identifier : Parser Token := do
  let token ← token
  match Identifier.fault? token.value with
  | none => return token
  | some fault => failAt (.invalidIdentifier token.value fault) token.position

@[simp] theorem run_sees (text : String) (c : Cursor) :
    (sees text).run c = .ok (startsWith c.rest text, c) := rfl

theorem run_accept (text : String) (c : Cursor) :
    (accept text).run c =
      if startsWith c.rest text then .ok (true, c.advance 1) else .ok (false, c) := by
  rw [accept, run_bind_of_ok _ (run_sees text c)]
  split <;> rfl

theorem run_expect (text what : String) (c : Cursor) :
    (expect text what).run c =
      if startsWith c.rest text then .ok ((), c.advance 1)
      else .error { kind := .expected what, position := c.position } := by
  rw [expect, run_bind_of_ok _ (run_sees text c)]
  split <;> rfl

/-! ### Recursion -/

/-- `n` rounds of a recursion; what is left to do after them fails. -/
def rounds (body : Parser α → Parser α) : Nat → Parser α
  | 0 => fail .unexpectedEnd
  | n + 1 => body (rounds body n)

/-- The parser that `body` describes in terms of itself. A round reads a token before it begins
another, so there are at most as many as there are tokens, and one at the end of them. -/
def recursive (body : Parser α → Parser α) : Parser α where
  outcome c := (rounds body (c.rest.length + 1)).outcome c
  congr h := by
    rw [h.rest_eq]
    exact (rounds body _).congr h

/-- A body whose outcome at a cursor hangs on its argument only at cursors with fewer tokens
left. -/
def Progressive (body : Parser α → Parser α) : Prop :=
  ∀ (p q : Parser α) (c : Cursor),
    (∀ d : Cursor, d.rest.length < c.rest.length → p.outcome d = q.outcome d) →
      (body p).outcome c = (body q).outcome c

/-- As soon as there is a round for every token, more rounds change nothing. -/
theorem rounds_eq_of_progressive {body : Parser α → Parser α} (h : Progressive body)
    (m n : Nat) (c : Cursor) (hm : c.rest.length < m) (hn : c.rest.length < n) :
    (rounds body m).outcome c = (rounds body n).outcome c := by
  induction m generalizing n c with
  | zero => omega
  | succ m ih =>
    cases n with
    | zero => omega
    | succ n => exact h _ _ c fun d hd => ih n d (by omega) (by omega)

/-- A progressive body describes its own recursion. -/
theorem recursive_eq {body : Parser α → Parser α} (h : Progressive body) :
    recursive body = body (recursive body) :=
  ext fun c => h _ _ c fun d hd =>
    rounds_eq_of_progressive h _ _ d (by omega) (by omega)

end Parser

end Script
