import Script.Proofs.Grammar.Sentence
import Script.Proofs.Writing
/-!
# How far a type goes

A type is a word and array suffixes. Looking ahead only counts the tokens of the suffixes, and
reading spells each suffix that it takes. Both go on as long as a suffix in either spelling begins,
and both stop at a bracket that has no partner right behind it.
-/

namespace Script

open Script.Parser

namespace Grammar

inductive ArraySuffix : List Token → Prop
  | joined {token : Token} (ht : token.value = "[]") : ArraySuffix [token]
  | split {left right : Token} (hl : left.value = "[") (hr : right.value = "]") :
      ArraySuffix [left, right]

/-- The tokens are the array suffixes, one after the other, and then others that begin with none. -/
structure SuffixedBy (tokens : List Token) (pieces : List (List Token)) (behind : List Token) :
    Prop where
  tokens_eq : tokens = pieces.flatten ++ behind
  isSuffix : ∀ piece ∈ pieces, ArraySuffix piece
  ends : ∀ piece, ArraySuffix piece → ¬piece <+: behind

variable {tokens ts behind : List Token} {pieces : List (List Token)} {word : Token} {s : String}
  {c : Cursor}

/-! ### Suffixes one by one -/

theorem suffixes_flatten (h : ∀ piece ∈ pieces, ArraySuffix piece) :
    Suffixes pieces.flatten (suffixes pieces.length) := by
  induction pieces with
  | nil => exact .nil
  | cons piece pieces ih =>
    obtain ⟨hpiece, hpieces⟩ := List.forall_mem_cons.1 h
    cases hpiece with
    | joined ht => exact .joined ht (ih hpieces)
    | split hl hr => exact .split hl hr (ih hpieces)

theorem Suffixes.exists_pieces (h : Suffixes ts s) :
    ∃ pieces : List (List Token), ts = pieces.flatten ∧ ∀ piece ∈ pieces, ArraySuffix piece := by
  induction h with
  | nil => exact ⟨[], rfl, List.forall_mem_nil _⟩
  | @joined token ts s ht _ ih =>
    obtain ⟨pieces, rfl, hpieces⟩ := ih
    exact ⟨[token] :: pieces, rfl, List.forall_mem_cons.2 ⟨.joined ht, hpieces⟩⟩
  | @split left right ts s hl hr _ ih =>
    obtain ⟨pieces, rfl, hpieces⟩ := ih
    exact ⟨[left, right] :: pieces, rfl, List.forall_mem_cons.2 ⟨.split hl hr, hpieces⟩⟩

/-! ### Counting suffixes -/

/-- The tokens that are counted are array suffixes, and none begins behind them. -/
theorem exists_suffixes (tokens : List Token) :
    ∃ ts s rest, tokens = ts ++ rest ∧ Suffixes ts s ∧ suffixLength tokens = ts.length ∧
      suffixLength rest = 0 := by
  fun_induction suffixLength tokens with
  | case1 => exact ⟨[], "", [], rfl, .nil, rfl, rfl⟩
  | case2 token rest ht ih =>
    obtain ⟨ts, s, more, rfl, hs, hlength, hmore⟩ := ih
    exact ⟨token :: ts, _, more, rfl, .joined (Token.is_iff.1 ht) hs, by simp [hlength], hmore⟩
  | case3 token ht => exact ⟨[], "", [token], rfl, .nil, rfl, by simp [suffixLength, ht]⟩
  | case4 token ht next rest hsplit ih =>
    rw [Bool.and_eq_true, Token.is_iff, Token.is_iff] at hsplit
    obtain ⟨ts, s, more, rfl, hs, hlength, hmore⟩ := ih
    exact ⟨token :: next :: ts, _, more, rfl, .split hsplit.1 hsplit.2 hs, by simp [hlength], hmore⟩
  | case5 token ht next rest hsplit =>
    exact ⟨[], "", token :: next :: rest, rfl, .nil, rfl, by simp [suffixLength, ht, hsplit]⟩

theorem suffixLength_eq_zero_iff_ends :
    suffixLength behind = 0 ↔ ∀ piece, ArraySuffix piece → ¬piece <+: behind := by
  constructor
  · rintro hzero piece hpiece ⟨more, rfl⟩
    cases hpiece with
    | joined ht =>
      rw [List.singleton_append, suffixLength_joined ht] at hzero
      cases hzero
    | split hl hr =>
      rw [List.cons_append, List.singleton_append, suffixLength_split hl hr] at hzero
      cases hzero
  · intro hends
    obtain ⟨ts, s, more, rfl, hs, hlength, -⟩ := exists_suffixes behind
    obtain ⟨pieces, rfl, hpieces⟩ := hs.exists_pieces
    cases pieces with
    | nil => exact hlength
    | cons piece pieces =>
      refine absurd ?_ (hends piece (hpieces piece List.mem_cons_self))
      exact ⟨pieces.flatten ++ more, by simp⟩

private theorem exists_suffixedBy (tokens : List Token) :
    ∃ pieces behind, SuffixedBy tokens pieces behind := by
  obtain ⟨ts, s, behind, htokens, hs, -, hbehind⟩ := exists_suffixes tokens
  obtain ⟨pieces, rfl, hpieces⟩ := hs.exists_pieces
  exact ⟨pieces, behind, htokens, hpieces, suffixLength_eq_zero_iff_ends.1 hbehind⟩

private theorem SuffixedBy.suffixLength_eq (h : SuffixedBy tokens pieces behind) :
    suffixLength tokens = pieces.flatten.length := by
  have hbehind : suffixLength behind = 0 := suffixLength_eq_zero_iff_ends.2 h.ends
  rw [h.tokens_eq, (suffixes_flatten h.isSuffix).suffixLength_add, hbehind, Nat.add_zero]

/-! ### Reading a type -/

private theorem SuffixedBy.run_typeName (h : SuffixedBy tokens pieces behind) (hw : Word word)
    (hc : c.rest = word :: tokens) :
    ∃ d, typeName.run c = .ok (word.value ++ suffixes pieces.length, d) ∧
      c.Passes (word :: pieces.flatten) d ∧ d.rest = behind := by
  have hrest : c.rest = (word :: pieces.flatten) ++ behind := by
    rw [hc, h.tokens_eq, List.cons_append]
  obtain ⟨d, hpass, hd⟩ := Cursor.exists_passes hrest
  refine ⟨d, ?_, hpass, hd⟩
  refine (TypeName.intro hw (suffixes_flatten h.isSuffix)).reads c d hpass ?_
  rw [hd]
  exact suffixLength_eq_zero_iff_ends.2 h.ends

/-- Wherever a word stands, array suffixes in whichever spellings follow it, maybe none, and then
tokens that begin with no suffix. A type is read there: it is the word with a pair of brackets for
each suffix, and it takes the word and as many tokens as looking ahead counts behind it, which are
those of the suffixes. -/
theorem typeName_of_suffixes {c : Cursor} {word : Token} (hword : c.rest.head? = some word)
    (hw : Word word) :
    (∃ pieces behind, SuffixedBy (c.rest.drop 1) pieces behind) ∧
      ∀ pieces behind, SuffixedBy (c.rest.drop 1) pieces behind →
        suffixLength (c.rest.drop 1) = pieces.flatten.length ∧
          typeName.run c = .ok (word.value ++ suffixes pieces.length,
            c.advance (1 + suffixLength (c.rest.drop 1))) ∧
          (c.advance (1 + suffixLength (c.rest.drop 1))).rest = behind := by
  refine ⟨exists_suffixedBy _, fun pieces behind h => ?_⟩
  obtain ⟨rest, hrest⟩ := List.head?_eq_some_iff.1 hword
  have hc : c.rest = word :: c.rest.drop 1 := by
    rw [hrest, List.drop_succ_cons, List.drop_zero]
  obtain ⟨d, hrun, hpass, hd⟩ := h.run_typeName hw hc
  have hadvance : d = c.advance (1 + suffixLength (c.rest.drop 1)) := by
    rw [hpass.eq_advance, h.suffixLength_eq, List.length_cons, Nat.add_comm]
  rw [hadvance] at hrun hd
  exact ⟨h.suffixLength_eq, hrun, hd⟩

/-- Suffixes of both spellings in front of a bracket that has no partner. -/
theorem typeName_of_suffixes_lone_bracket :
    let word : Token := ⟨⟨0, 0⟩, "int"⟩
    let behind : List Token := [⟨⟨0, 9⟩, "["⟩, ⟨⟨0, 10⟩, "x"⟩]
    let tokens : List Token :=
      word :: ⟨⟨0, 3⟩, "["⟩ :: ⟨⟨0, 5⟩, "]"⟩ :: ⟨⟨0, 7⟩, "[]"⟩ :: behind
    Word word ∧ suffixLength (tokens.drop 1) = 3 ∧
      typeName.run (.start tokens) = .ok ("int[][]", (Cursor.start tokens).advance 4) ∧
      ((Cursor.start tokens).advance 4).rest = behind := by
  intro word behind tokens
  have hw : Identifier.isValid "int" = true := by decide
  obtain ⟨-, hread⟩ := typeName_of_suffixes (c := .start tokens) rfl hw
  have hends : suffixLength behind = 0 := by decide
  have hsuffixed : SuffixedBy (tokens.drop 1)
      [[⟨⟨0, 3⟩, "["⟩, ⟨⟨0, 5⟩, "]"⟩], [⟨⟨0, 7⟩, "[]"⟩]] behind := by
    refine ⟨rfl, ?_, suffixLength_eq_zero_iff_ends.1 hends⟩
    exact List.forall_mem_cons.2 ⟨.split rfl rfl, List.forall_mem_singleton.2 (.joined rfl)⟩
  obtain ⟨hlength, hrun, hrest⟩ := hread _ _ hsuffixed
  exact ⟨hw, hlength, hrun, hrest⟩

end Grammar

end Script
