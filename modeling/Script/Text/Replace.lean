/-!
# Replacing a phrase

Every occurrence of a phrase is replaced, from the left and without overlap.
-/

namespace Script.Text

/-- Replaces `phrase` in a text whose first `skip` characters belong to an occurrence already
replaced. -/
def replaceFrom (phrase replacement : List Char) : Nat → List Char → List Char
  | _, [] => []
  | skip + 1, _ :: text => replaceFrom phrase replacement skip text
  | 0, c :: text =>
    if phrase.isPrefixOf (c :: text) then
      replacement ++ replaceFrom phrase replacement (phrase.length - 1) text
    else c :: replaceFrom phrase replacement 0 text

def replaceAll (phrase replacement text : String) : String :=
  String.ofList (replaceFrom phrase.toList replacement.toList 0 text.toList)

private theorem replaceFrom_skip (phrase replacement : List Char) (n : Nat) (text : List Char) :
    replaceFrom phrase replacement n text = replaceFrom phrase replacement 0 (text.drop n) := by
  induction text generalizing n with
  | nil => cases n <;> simp [replaceFrom]
  | cons c text ih =>
    cases n with
    | zero => rfl
    | succ n => simpa [replaceFrom] using ih n

theorem replaceFrom_append {phrase : List Char} (replacement text : List Char)
    (h : phrase ≠ []) :
    replaceFrom phrase replacement 0 (phrase ++ text) =
      replacement ++ replaceFrom phrase replacement 0 text := by
  obtain ⟨c, phrase, rfl⟩ := List.exists_cons_of_ne_nil h
  have hp : (c :: phrase).isPrefixOf (c :: (phrase ++ text)) = true :=
    List.isPrefixOf_iff_prefix.2 ⟨text, rfl⟩
  rw [List.cons_append, replaceFrom, if_pos hp, replaceFrom_skip]
  simp

theorem replaceFrom_cons {phrase : List Char} (replacement : List Char) {c : Char}
    {text : List Char} (h : phrase.isPrefixOf (c :: text) = false) :
    replaceFrom phrase replacement 0 (c :: text) =
      c :: replaceFrom phrase replacement 0 text := by
  simp [replaceFrom, h]

theorem replaceFrom_append_of_notMem {first : Char} {text : List Char} (h : first ∉ text)
    (phrase replacement more : List Char) :
    replaceFrom (first :: phrase) replacement 0 (text ++ more) =
      text ++ replaceFrom (first :: phrase) replacement 0 more := by
  induction text with
  | nil => rfl
  | cons c text ih =>
    rw [List.mem_cons, not_or] at h
    have hnone : (first :: phrase).isPrefixOf (c :: (text ++ more)) = false := by
      rw [List.isPrefixOf, beq_false_of_ne h.1, Bool.false_and]
    rw [List.cons_append, replaceFrom_cons replacement hnone, ih h.2, List.cons_append]

private theorem notMem_replaceFrom {phrase replacement text : List Char} {c : Char}
    (hreplacement : c ∉ replacement) (htext : c ∉ text) (n : Nat) :
    c ∉ replaceFrom phrase replacement n text := by
  induction text generalizing n with
  | nil => cases n <;> exact List.not_mem_nil
  | cons first text ih =>
    rw [List.mem_cons, not_or] at htext
    cases n with
    | succ n => exact ih htext.2 n
    | zero =>
      rw [replaceFrom]
      split
      · rw [List.mem_append, not_or]
        exact ⟨hreplacement, ih htext.2 _⟩
      · rw [List.mem_cons, not_or]
        exact ⟨htext.1, ih htext.2 0⟩

theorem notMem_replaceAll {phrase replacement text : String} {c : Char}
    (hreplacement : c ∉ replacement.toList) (htext : c ∉ text.toList) :
    c ∉ (replaceAll phrase replacement text).toList := by
  rw [replaceAll, String.toList_ofList]
  exact notMem_replaceFrom hreplacement htext 0

private theorem intercalate_cons_head (phrase : List Char) (c : Char) (piece : List Char)
    (pieces : List (List Char)) :
    phrase.intercalate ((c :: piece) :: pieces) = c :: phrase.intercalate (piece :: pieces) := by
  cases pieces with
  | nil => rw [List.intercalate_singleton, List.intercalate_singleton]
  | cons next pieces =>
    rw [List.intercalate_cons_cons, List.intercalate_cons_cons, List.cons_append,
      List.cons_append]

private theorem prefix_intercalate (phrase piece : List Char) (pieces : List (List Char)) :
    piece <+: phrase.intercalate (piece :: pieces) := by
  cases pieces with
  | nil => exact ⟨[], by rw [List.append_nil, List.intercalate_singleton]⟩
  | cons next pieces =>
    rw [List.intercalate_cons_cons, List.append_assoc]
    exact List.prefix_append piece _

/-- The occurrences of a phrase cut a text into pieces, and replacing the phrase joins the same
pieces by what it is replaced with. -/
theorem exists_pieces {phrase : List Char} (replacement : List Char) (h : phrase ≠ [])
    (text : List Char) :
    ∃ piece pieces, phrase.intercalate (piece :: pieces) = text ∧
      replacement.intercalate (piece :: pieces) = replaceFrom phrase replacement 0 text ∧
      ∀ part ∈ piece :: pieces, ¬phrase <:+: part := by
  induction hlength : text.length using Nat.strongRecOn generalizing text with
  | _ length ih =>
    subst hlength
    by_cases hphrase : phrase <+: text
    · -- An occurrence ends an empty piece.
      obtain ⟨rest, rfl⟩ := hphrase
      have hpos : 0 < phrase.length := List.length_pos_iff.2 h
      obtain ⟨piece, pieces, htext, hreplaced, hpieces⟩ :=
        ih rest.length (by rw [List.length_append]; omega) rest rfl
      refine ⟨[], piece :: pieces, ?_, ?_, ?_⟩
      · rw [List.intercalate_cons_cons, htext, List.nil_append]
      · rw [List.intercalate_cons_cons, hreplaced, replaceFrom_append replacement rest h,
          List.nil_append]
      · exact List.forall_mem_cons.2 ⟨fun hinfix => h (List.infix_nil.1 hinfix), hpieces⟩
    · cases text with
      | nil =>
        refine ⟨[], [], rfl, rfl, ?_⟩
        intro part hpart hinfix
        rw [List.mem_singleton.1 hpart] at hinfix
        exact h (List.infix_nil.1 hinfix)
      | cons c text =>
        obtain ⟨piece, pieces, htext, hreplaced, hpieces⟩ :=
          ih text.length (Nat.lt_succ_self _) text rfl
        refine ⟨c :: piece, pieces, ?_, ?_, ?_⟩
        · rw [intercalate_cons_head, htext]
        · have hnone : phrase.isPrefixOf (c :: text) = false := by
            rw [← Bool.not_eq_true, List.isPrefixOf_iff_prefix]
            exact hphrase
          rw [intercalate_cons_head, hreplaced, replaceFrom_cons replacement hnone]
        · rw [List.forall_mem_cons] at hpieces ⊢
          refine ⟨fun hinfix => ?_, hpieces.2⟩
          rcases List.infix_cons_iff.1 hinfix with hfront | hinside
          · -- The piece stands at the front of the text, and so would the phrase.
            apply hphrase
            have hpiece := prefix_intercalate phrase (c :: piece) pieces
            rw [intercalate_cons_head, htext] at hpiece
            exact hfront.trans hpiece
          · exact hpieces.1 hinside

/-! ### What is left of the phrase -/

/-- A character that the phrase does not have cuts off what stands behind it. -/
theorem prefix_of_append_cons {phrase text more : List Char} {c : Char} (hc : c ∉ phrase)
    (h : phrase <+: text ++ c :: more) : phrase <+: text := by
  induction text generalizing phrase with
  | nil =>
    cases phrase with
    | nil => exact List.nil_prefix
    | cons d phrase =>
      obtain ⟨rfl, -⟩ := List.cons_prefix_cons.1 h
      exact absurd List.mem_cons_self hc
  | cons d text ih =>
    cases phrase with
    | nil => exact List.nil_prefix
    | cons e phrase =>
      rw [List.mem_cons, not_or] at hc
      obtain ⟨rfl, hphrase⟩ := List.cons_prefix_cons.1 h
      exact List.cons_prefix_cons.2 ⟨rfl, ih hc.2 hphrase⟩

private theorem infix_append_cons {phrase text more : List Char} {c : Char} (hc : c ∉ phrase)
    (h : phrase <:+: text ++ c :: more) : phrase <:+: text ∨ phrase <:+: more := by
  induction text with
  | nil =>
    rcases List.infix_cons_iff.1 h with hfront | hmore
    · exact .inl (prefix_of_append_cons hc hfront).isInfix
    · exact .inr hmore
  | cons d text ih =>
    rcases List.infix_cons_iff.1 h with hfront | hinside
    · have hprefix : phrase <+: (d :: text) ++ c :: more := hfront
      exact .inl (prefix_of_append_cons hc hprefix).isInfix
    · exact (ih hinside).imp_left fun htext => List.infix_cons htext

private theorem infix_of_append_of_notMem {first : Char} {phrase text more : List Char}
    (hfirst : first ∉ text) (h : first :: phrase <:+: text ++ more) :
    first :: phrase <:+: more := by
  induction text with
  | nil => exact h
  | cons c text ih =>
    rw [List.mem_cons, not_or] at hfirst
    rcases List.infix_cons_iff.1 h with hfront | hinside
    · exact absurd (List.cons_prefix_cons.1 hfront).1 hfirst.1
    · exact ih hfirst.2 hinside

theorem replaceFrom_eq_self {phrase text : List Char} (replacement : List Char)
    (h : ¬phrase <:+: text) : replaceFrom phrase replacement 0 text = text := by
  induction text with
  | nil => rfl
  | cons c text ih =>
    rw [List.infix_cons_iff, not_or, ← List.isPrefixOf_iff_prefix, Bool.not_eq_true] at h
    rw [replaceFrom_cons replacement h.1, ih h.2]

theorem replaceFrom_append_cons {phrase : List Char} {c : Char} (hne : phrase ≠ [])
    (hc : c ∉ phrase) (replacement text more : List Char) :
    replaceFrom phrase replacement 0 (text ++ c :: more) =
      replaceFrom phrase replacement 0 text ++ c :: replaceFrom phrase replacement 0 more := by
  induction hlength : text.length using Nat.strongRecOn generalizing text with
  | _ length ih =>
    subst hlength
    by_cases hphrase : phrase <+: text
    · obtain ⟨rest, rfl⟩ := hphrase
      have hpos : 0 < phrase.length := List.length_pos_iff.2 hne
      have hrest := ih rest.length (by rw [List.length_append]; omega) rest rfl
      rw [List.append_assoc, replaceFrom_append replacement _ hne, hrest,
        replaceFrom_append replacement _ hne, List.append_assoc]
    · have hnone : phrase.isPrefixOf (text ++ c :: more) = false := by
        rw [← Bool.not_eq_true, List.isPrefixOf_iff_prefix]
        exact fun hfront => hphrase (prefix_of_append_cons hc hfront)
      cases text with
      | nil => exact replaceFrom_cons replacement hnone
      | cons d text =>
        have htext : phrase.isPrefixOf (d :: text) = false := by
          rw [← Bool.not_eq_true, List.isPrefixOf_iff_prefix]
          exact hphrase
        rw [List.cons_append] at hnone ⊢
        rw [replaceFrom_cons replacement hnone,
          ih text.length (Nat.lt_succ_self _) text rfl, replaceFrom_cons replacement htext,
          List.cons_append]

/-- Replacing leaves no occurrence of the phrase, if the replacement does not have its first
character and begins with a character that it does not have. -/
theorem not_infix_replaceFrom {first c : Char} {phrase replacement : List Char}
    (hfirst : first ∉ replacement) (hc : c ∉ first :: phrase) (text : List Char) :
    ¬first :: phrase <:+: replaceFrom (first :: phrase) (c :: replacement) 0 text := by
  obtain ⟨piece, pieces, -, hreplaced, hpieces⟩ :=
    exists_pieces (c :: replacement) (List.cons_ne_nil first phrase) text
  rw [← hreplaced]
  clear hreplaced
  induction pieces generalizing piece with
  | nil =>
    rw [List.intercalate_singleton]
    exact hpieces piece List.mem_cons_self
  | cons next pieces ih =>
    rw [List.forall_mem_cons] at hpieces
    rw [List.intercalate_cons_cons, List.append_assoc, List.cons_append]
    intro hinfix
    rcases infix_append_cons hc hinfix with hpiece | hmore
    · exact hpieces.1 hpiece
    · exact ih next hpieces.2 (infix_of_append_of_notMem hfirst hmore)

end Script.Text
