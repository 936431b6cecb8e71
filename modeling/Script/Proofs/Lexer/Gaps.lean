import Script.Lexer.Shape
/-!
# Gaps

A gap is made of blanks and comments. The lexer skips as much of a text as is a gap, and no gap
begins with what it leaves.
-/

namespace Script.Lexer

/-- Blanks and comments in front of `rest`. A comment goes on up to a newline or to the end of the
text. -/
inductive Gap (rest : List Char) : List Char → Prop
  | nil : Gap rest []
  | blank {c : Char} {gap : List Char} (hc : Text.isBlank c = true) (h : Gap rest gap) :
      Gap rest (c :: gap)
  | comment {body gap : List Char} (hbody : '\n' ∉ body)
      (hend : ∀ c ∈ (gap ++ rest).head?, c = '\n') (h : Gap rest gap) :
      Gap rest ('/' :: '/' :: (body ++ gap))

variable {rest gap text : List Char} {c : Char}

theorem Gap.of_isBlank (h : ∀ c ∈ gap, Text.isBlank c = true) : Gap rest gap := by
  induction gap with
  | nil => exact .nil
  | cons c gap ih =>
    obtain ⟨hc, hgap⟩ := List.forall_mem_cons.1 h
    exact .blank hc (ih hgap)

/-! ### What follows -/

/-- `after` begins as `rest` does, or with a newline where `rest` does not, or it is empty. -/
def BeginsLike (rest after : List Char) : Prop :=
  ∀ c ∈ after.head?, rest.head? = some c ∨ c = '\n'

theorem BeginsLike.append_left {after : List Char} (h : BeginsLike rest after)
    (text : List Char) : BeginsLike (text ++ rest) (text ++ after) := by
  cases text with
  | nil => exact h
  | cons c text => exact fun d hd => .inl hd

theorem beginsLike_line (rest more : List Char) : BeginsLike rest (rest ++ '\n' :: more) := by
  intro c hc
  cases rest with
  | nil => exact .inr (by simpa using hc.symm)
  | cons d rest => exact .inl hc

/-- A comment at the end of a gap is the only thing that depends on what follows. -/
theorem Gap.before (h : Gap rest gap) {after : List Char} (hafter : BeginsLike rest after) :
    Gap after gap := by
  induction h with
  | nil => exact .nil
  | blank hc h ih => exact .blank hc ih
  | @comment body gap hbody hend h ih =>
    refine .comment hbody (fun c hc => ?_) ih
    rcases hafter.append_left gap c hc with hsame | hnewline
    · exact hend c hsame
    · exact hnewline

theorem Gap.append {more : List Char} (h : Gap (more ++ rest) gap) (hmore : Gap rest more) :
    Gap rest (gap ++ more) := by
  induction h with
  | nil => exact hmore
  | blank hc h ih => exact .blank hc ih
  | @comment body gap hbody hend h ih =>
    rw [List.cons_append, List.cons_append, List.append_assoc]
    refine .comment hbody ?_ ih
    rwa [List.append_assoc]

/-! ### The length of a gap -/

theorem gapLength_eq_zero_iff :
    gapLength false (c :: text) = 0 ↔
      Text.isBlank c = false ∧ (c = '/' → text.head? ≠ some '/') := by
  cases hc : Text.isBlank c with
  | true => simp [gapLength, hc]
  | false => simp [gapLength, hc]

theorem gapLength_blank (hc : Text.isBlank c = true) (text : List Char) :
    gapLength false (c :: text) = gapLength false text + 1 := by
  simp [gapLength, hc]

private theorem gapLength_slashes (text : List Char) :
    gapLength false ('/' :: '/' :: text) = gapLength true text + 2 := by
  have hslash : Text.isBlank '/' = false := by decide
  simp [gapLength, hslash]

private theorem gapLength_comment (hc : c ≠ '\n') (text : List Char) :
    gapLength true (c :: text) = gapLength true text + 1 := by
  have hgoesOn : (c != '\n') = true := by simpa using hc
  simp [gapLength, hgoesOn]

/-- Where its line ends a comment makes no difference any more. -/
theorem gapLength_lineEnd (h : ∀ c ∈ text.head?, c = '\n') :
    gapLength true text = gapLength false text := by
  cases text with
  | nil => rfl
  | cons c text =>
    obtain rfl : c = '\n' := h c rfl
    rw [gapLength_blank Text.isBlank_newline]
    simp [gapLength]

private theorem gapLength_body {body : List Char} (hbody : '\n' ∉ body) (text : List Char) :
    gapLength true (body ++ text) = body.length + gapLength true text := by
  induction body with
  | nil => simp
  | cons c body ih =>
    simp only [List.mem_cons, not_or] at hbody
    rw [List.cons_append, gapLength_comment (Ne.symm hbody.1), ih hbody.2, List.length_cons]
    omega

theorem Gap.gapLength_append (h : Gap rest gap) :
    gapLength false (gap ++ rest) = gap.length + gapLength false rest := by
  induction h with
  | nil => simp
  | blank hc h ih =>
    rw [List.cons_append, gapLength_blank hc, ih, List.length_cons]
    omega
  | @comment body gap hbody hend h ih =>
    calc gapLength false ('/' :: '/' :: (body ++ gap) ++ rest)
        = gapLength false ('/' :: '/' :: (body ++ (gap ++ rest))) := by
          rw [List.cons_append, List.cons_append, List.append_assoc]
      _ = body.length + gapLength true (gap ++ rest) + 2 := by
          rw [gapLength_slashes, gapLength_body hbody]
      _ = body.length + (gap.length + gapLength false rest) + 2 := by
          rw [gapLength_lineEnd hend, ih]
      _ = ('/' :: '/' :: (body ++ gap)).length + gapLength false rest := by
          simp only [List.length_cons, List.length_append]
          omega

theorem exists_span (p : Char → Prop) (text : List Char) :
    ∃ front rest, text = front ++ rest ∧ (∀ c ∈ front, p c) ∧ ∀ c ∈ rest.head?, ¬p c := by
  induction text with
  | nil => exact ⟨[], [], rfl, by simp, by simp⟩
  | cons c text ih =>
    by_cases hc : p c
    · obtain ⟨front, rest, rfl, hfront, hrest⟩ := ih
      exact ⟨c :: front, rest, rfl, List.forall_mem_cons.2 ⟨hc, hfront⟩, hrest⟩
    · exact ⟨[], c :: text, rfl, by simp, by simpa using hc⟩

theorem exists_gap (text : List Char) :
    ∃ gap rest, text = gap ++ rest ∧ Gap rest gap ∧ gapLength false rest = 0 := by
  -- a comment is skipped as a whole, so the induction is on the length
  induction hn : text.length using Nat.strongRecOn generalizing text with
  | _ n ih =>
    subst hn
    cases text with
    | nil => exact ⟨[], [], rfl, .nil, rfl⟩
    | cons c text =>
      by_cases hblank : Text.isBlank c = true
      · obtain ⟨gap, rest, rfl, hgap, hrest⟩ := ih _ (by simp) text rfl
        exact ⟨c :: gap, rest, rfl, .blank hblank hgap, hrest⟩
      · by_cases hcomment : c = '/' ∧ text.head? = some '/'
        · obtain ⟨rfl, hslash⟩ := hcomment
          obtain ⟨line, rfl⟩ := List.head?_eq_some_iff.1 hslash
          obtain ⟨body, after, rfl, hbody, hend⟩ := exists_span (· ≠ '\n') line
          obtain ⟨gap, rest, rfl, hgap, hrest⟩ := ih _ (by simp; omega) after rfl
          have hline : '\n' ∉ body := fun hmem => hbody '\n' hmem rfl
          have hnewline : ∀ c ∈ (gap ++ rest).head?, c = '\n' :=
            fun c hc => Decidable.not_not.1 (hend c hc)
          refine ⟨'/' :: '/' :: (body ++ gap), rest, ?_, .comment hline hnewline hgap, hrest⟩
          rw [List.cons_append, List.cons_append, List.append_assoc]
        · rw [Bool.not_eq_true] at hblank
          refine ⟨[], c :: text, rfl, .nil, gapLength_eq_zero_iff.2 ⟨hblank, fun hc hslash => ?_⟩⟩
          exact hcomment ⟨hc, hslash⟩

end Script.Lexer
