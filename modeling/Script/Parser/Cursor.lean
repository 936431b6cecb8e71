import Script.Token
/-!
# Cursors

A cursor is an index into the tokens of a program. Nothing in it keeps the index from running past
the last token: that it never does so is for the parser to take care of.
-/

namespace Script.Parser

structure Cursor where
  tokens : List Token
  /-- How many tokens stand before the cursor. -/
  index : Nat
deriving DecidableEq, Repr

namespace Cursor

variable {c d e : Cursor}

def behind (tokens : List Token) (i : Nat) : Cursor := ⟨tokens, i⟩

def start (tokens : List Token) : Cursor := behind tokens 0

def rest (c : Cursor) : List Token := c.tokens.drop c.index

def previous (c : Cursor) : Option Token :=
  match c.index with
  | 0 => none
  | i + 1 => c.tokens[i]?

def advance (n : Nat) (c : Cursor) : Cursor := behind c.tokens (c.index + n)

/-- The position of the token at the cursor. At the end it is right behind the last token. -/
def position (c : Cursor) : Position :=
  match c.rest with
  | token :: _ => token.position
  | [] => (c.tokens.getLast?.map Token.endPosition).getD {}

def InRange (c : Cursor) : Prop := c.index ≤ c.tokens.length

theorem advance_behind (tokens : List Token) (i n : Nat) :
    (behind tokens i).advance n = behind tokens (i + n) := rfl

theorem advance_advance (m n : Nat) (c : Cursor) :
    (c.advance m).advance n = c.advance (m + n) := by
  simp only [advance, behind, Nat.add_assoc]

@[simp] theorem rest_advance (n : Nat) (c : Cursor) : (c.advance n).rest = c.rest.drop n :=
  List.drop_drop.symm

theorem previous_advance_succ (n : Nat) (c : Cursor) :
    (c.advance (n + 1)).previous = c.rest[n]? :=
  List.getElem?_drop.symm

theorem InRange.advance {n : Nat} (h : c.InRange) (hn : n ≤ c.rest.length) :
    (c.advance n).InRange := by
  unfold rest at hn
  rw [List.length_drop] at hn
  show c.index + n ≤ c.tokens.length
  unfold InRange at h
  omega

/-! ### Moving on -/

/-- Whether the second cursor stands at the first or further on. -/
def Reaches (c d : Cursor) : Prop := ∃ n, d = c.advance n

theorem Reaches.refl (c : Cursor) : c.Reaches c := ⟨0, rfl⟩

theorem Reaches.trans (h : c.Reaches d) (h' : d.Reaches e) : c.Reaches e := by
  obtain ⟨m, rfl⟩ := h
  obtain ⟨n, rfl⟩ := h'
  exact ⟨m + n, advance_advance m n c⟩

theorem reaches_advance (n : Nat) (c : Cursor) : c.Reaches (c.advance n) := ⟨n, rfl⟩

theorem Reaches.suffix (h : c.Reaches d) : d.rest <:+ c.rest := by
  obtain ⟨n, rfl⟩ := h
  simpa using List.drop_suffix n c.rest

theorem Reaches.length_le (h : c.Reaches d) : d.rest.length ≤ c.rest.length :=
  h.suffix.length_le

theorem Reaches.index_le (h : c.Reaches d) : c.index ≤ d.index := by
  obtain ⟨n, rfl⟩ := h
  exact Nat.le_add_right _ _

theorem InRange.of_reaches (h : d.InRange) (hcd : c.Reaches d) : c.InRange := by
  have hindex := hcd.index_le
  obtain ⟨n, rfl⟩ := hcd
  exact Nat.le_trans hindex h

/-- The cursor that is left when a cursor is moved on several times. -/
def moved (c : Cursor) (moves : List Nat) : Cursor := moves.foldl (fun c n => c.advance n) c

/-- The cursors that a cursor goes through when it is moved on several times. -/
def along (c : Cursor) : List Nat → List Cursor
  | [] => [c]
  | n :: moves => c :: (c.advance n).along moves

theorem moved_append (c : Cursor) (moves moves' : List Nat) :
    c.moved (moves ++ moves') = (c.moved moves).moved moves' :=
  List.foldl_append

theorem exists_moved_eq_advance (moves : List Nat) :
    ∃ n, ∀ c : Cursor, c.moved moves = c.advance n := by
  induction moves with
  | nil => exact ⟨0, fun c => rfl⟩
  | cons m moves ih =>
    obtain ⟨n, hn⟩ := ih
    exact ⟨m + n, fun c => (hn (c.advance m)).trans (advance_advance m n c)⟩

theorem reaches_moved (c : Cursor) (moves : List Nat) : c.Reaches (c.moved moves) := by
  obtain ⟨n, hn⟩ := exists_moved_eq_advance moves
  exact ⟨n, hn c⟩

theorem reaches_of_mem_along {moves : List Nat} (h : d ∈ c.along moves) :
    c.Reaches d ∧ d.Reaches (c.moved moves) := by
  induction moves generalizing c with
  | nil =>
    obtain rfl := List.mem_singleton.1 h
    exact ⟨.refl _, .refl _⟩
  | cons m moves ih =>
    rcases List.mem_cons.1 h with rfl | h
    · exact ⟨.refl _, reaches_moved _ _⟩
    · obtain ⟨hbefore, hafter⟩ := ih h
      exact ⟨(reaches_advance m c).trans hbefore, hafter⟩

/-! ### Places -/

/-- The cursors stand between the same tokens, and before the same end. -/
structure Same (c d : Cursor) : Prop where
  previous_eq : c.previous = d.previous
  rest_eq : c.rest = d.rest
  last_eq : c.tokens.getLast? = d.tokens.getLast?

theorem getLast?_rest (hne : c.rest ≠ []) : c.rest.getLast? = c.tokens.getLast? := by
  unfold rest at hne ⊢
  rw [List.getLast?_drop, if_neg fun h => hne (List.drop_of_length_le h)]

theorem last_eq_of_rest (h : c.rest = d.rest) (hne : c.rest ≠ []) :
    c.tokens.getLast? = d.tokens.getLast? := by
  rw [← getLast?_rest hne, h, getLast?_rest (h ▸ hne)]

private theorem same_advance_of_rest {n : Nat} (h : c.rest = d.rest) (hne : c.rest ≠ [])
    (hn : 0 < n) : (c.advance n).Same (d.advance n) := by
  have hlast := last_eq_of_rest h hne
  obtain ⟨m, rfl⟩ := Nat.exists_eq_add_one.2 hn
  refine ⟨?_, ?_, hlast⟩
  · rw [previous_advance_succ, previous_advance_succ, h]
  · rw [rest_advance, rest_advance, h]

private theorem Same.advance (h : c.Same d) (n : Nat) : (c.advance n).Same (d.advance n) := by
  refine ⟨?_, ?_, h.last_eq⟩
  · cases n with
    | zero => exact h.previous_eq
    | succ n => rw [previous_advance_succ, previous_advance_succ, h.rest_eq]
  · rw [rest_advance, rest_advance, h.rest_eq]

theorem Same.moved (h : c.Same d) (moves : List Nat) : (c.moved moves).Same (d.moved moves) := by
  obtain ⟨n, hn⟩ := exists_moved_eq_advance moves
  rw [hn, hn]
  exact h.advance n

theorem same_moved_of_rest {moves : List Nat} (h : c.rest = d.rest) (hne : c.rest ≠ [])
    (hmoved : c.index < (c.moved moves).index) : (c.moved moves).Same (d.moved moves) := by
  obtain ⟨n, hn⟩ := exists_moved_eq_advance moves
  rw [hn] at hmoved
  rw [hn, hn]
  exact same_advance_of_rest h hne (Nat.lt_add_right_iff_pos.1 hmoved)

theorem Same.position_eq (h : c.Same d) : c.position = d.position := by
  rw [position, position, h.rest_eq, h.last_eq]

end Cursor

end Script.Parser
