/-!
# Positions in a source

A position is a line and a column, both counted from zero. Positions are ordered as they follow
each other in a text: by line, then by column.
-/

namespace Script

structure Position where
  line : Nat := 0
  column : Nat := 0
deriving DecidableEq, Repr, Inhabited

namespace Position

def describe (p : Position) : String :=
  "line " ++ p.line.repr ++ ", column " ++ p.column.repr

theorem exists_describe (p : Position) : ∃ words, p.describe.toList = 'l' :: words := by
  refine
    ⟨"ine ".toList ++ (p.line.repr.toList ++ (", column ".toList ++ p.column.repr.toList)), ?_⟩
  unfold describe
  simp only [String.toList_append, List.append_assoc]
  rfl

theorem notMem_describe {c : Char} (p : Position) (hdigit : c.isDigit = false)
    (hwords : c ∉ "line , column ".toList) : c ∉ p.describe.toList := by
  have hnumber : ∀ n : Nat, c ∉ n.repr.toList := by
    intro n hmem
    rw [Nat.toList_repr] at hmem
    rw [Nat.isDigit_of_mem_toDigits (by decide) (by decide) hmem] at hdigit
    cases hdigit
  have hline : c ∉ "line ".toList := fun h =>
    hwords (List.mem_append_left ", column ".toList h)
  have hcolumn : c ∉ ", column ".toList := fun h =>
    hwords (List.mem_append_right "line ".toList h)
  unfold describe
  simp only [String.toList_append, List.mem_append, hline, hcolumn, hnumber, or_self,
    not_false_eq_true]

def advanced (p : Position) (n : Nat) : Position := { p with column := p.column + n }

@[simp] theorem line_advanced (p : Position) (n : Nat) : (p.advanced n).line = p.line := rfl

@[simp] theorem column_advanced (p : Position) (n : Nat) :
    (p.advanced n).column = p.column + n := rfl

private theorem advanced_advanced (p : Position) (m n : Nat) :
    (p.advanced m).advanced n = p.advanced (m + n) := by
  simp [advanced, Nat.add_assoc]

def next (p : Position) (c : Char) : Position :=
  if c = '\n' then ⟨p.line + 1, 0⟩ else p.advanced 1

def after (p : Position) (text : List Char) : Position := text.foldl next p

@[simp] theorem after_nil (p : Position) : p.after [] = p := rfl

@[simp] theorem after_cons (p : Position) (c : Char) (text : List Char) :
    p.after (c :: text) = (p.next c).after text := rfl

theorem after_append (p : Position) (s t : List Char) :
    p.after (s ++ t) = (p.after s).after t := by
  simp [after]

theorem after_eq_advanced (p : Position) {text : List Char} (h : '\n' ∉ text) :
    p.after text = p.advanced text.length := by
  induction text generalizing p with
  | nil => rfl
  | cons c text ih =>
    simp only [List.mem_cons, not_or] at h
    rw [after_cons, ih _ h.2, next, if_neg (Ne.symm h.1), advanced_advanced, List.length_cons,
      Nat.add_comm]

/-- Lines and columns count no further than there are characters. -/
theorem line_add_column_after_le (p : Position) (text : List Char) :
    (p.after text).line + (p.after text).column ≤ p.line + p.column + text.length := by
  induction text generalizing p with
  | nil => exact Nat.le_refl _
  | cons c text ih =>
    have ih := ih (p.next c)
    have hnext : (p.next c).line + (p.next c).column ≤ p.line + p.column + 1 := by
      unfold next
      split
      · simp only [Nat.add_zero]
        omega
      · simp only [line_advanced, column_advanced]
        omega
    rw [after_cons, List.length_cons]
    omega

instance : Ord Position where
  compare p q := (compare p.line q.line).then (compare p.column q.column)

instance : LT Position where
  lt p q := p.line < q.line ∨ p.line = q.line ∧ p.column < q.column

instance : LE Position where
  le p q := p.line < q.line ∨ p.line = q.line ∧ p.column ≤ q.column

theorem lt_def {p q : Position} :
    p < q ↔ p.line < q.line ∨ p.line = q.line ∧ p.column < q.column := Iff.rfl

theorem le_def {p q : Position} :
    p ≤ q ↔ p.line < q.line ∨ p.line = q.line ∧ p.column ≤ q.column := Iff.rfl

instance (p q : Position) : Decidable (p < q) := decidable_of_iff _ lt_def.symm

instance (p q : Position) : Decidable (p ≤ q) := decidable_of_iff _ le_def.symm

theorem le_refl (p : Position) : p ≤ p := .inr ⟨rfl, Nat.le_refl _⟩

theorem le_of_lt {p q : Position} (h : p < q) : p ≤ q := by
  rw [lt_def] at h
  rw [le_def]
  omega

theorem le_trans {p q r : Position} (h : p ≤ q) (h' : q ≤ r) : p ≤ r := by
  rw [le_def] at h h' ⊢
  omega

theorem lt_of_lt_of_le {p q r : Position} (h : p < q) (h' : q ≤ r) : p < r := by
  rw [lt_def] at h ⊢
  rw [le_def] at h'
  omega

theorem le_advanced (p : Position) (n : Nat) : p ≤ p.advanced n :=
  .inr ⟨rfl, Nat.le_add_right _ _⟩

theorem lt_next (p : Position) (c : Char) : p < p.next c := by
  rw [lt_def]
  unfold next
  split
  · exact .inl (Nat.lt_succ_self _)
  · exact .inr ⟨rfl, Nat.lt_succ_self _⟩

theorem le_after (p : Position) (text : List Char) : p ≤ p.after text := by
  induction text generalizing p with
  | nil => exact le_refl p
  | cons c text ih => exact le_trans (le_of_lt (lt_next p c)) (ih (p.next c))

theorem lt_after (p : Position) {text : List Char} (h : text ≠ []) : p < p.after text := by
  obtain ⟨c, text, rfl⟩ := List.exists_cons_of_ne_nil h
  exact lt_of_lt_of_le (lt_next p c) (le_after (p.next c) text)

theorem compare_eq_lt {p q : Position} : compare p q = .lt ↔ p < q := by
  show (compare p.line q.line).then (compare p.column q.column) = .lt ↔ _
  rw [Ordering.then_eq_lt, Nat.compare_eq_lt, Nat.compare_eq_eq, Nat.compare_eq_lt, lt_def]

theorem compare_eq_eq {p q : Position} : compare p q = .eq ↔ p = q := by
  show (compare p.line q.line).then (compare p.column q.column) = .eq ↔ _
  rw [Ordering.then_eq_eq, Nat.compare_eq_eq, Nat.compare_eq_eq]
  cases p
  cases q
  simp

end Position

end Script
