import Mathlib.Data.Nat.Find
import Mathlib.Order.Bounds.Basic
import Script.Proofs.Parser.Bounds
import Script.Proofs.Recovery.SyncPoint
/-!
# Where reading goes on after an error

Tokens are counted from the first one of the program. Wherever in an element an error is found, the
token behind which reading goes on is told by the index at which the element begins, and by the
braces from there on.
-/

namespace Script

open Script.Parser

/-- The tokens from the index `s` up to the index `j`, without the one at `j`. -/
def stretch (tokens : List Token) (s j : Nat) : List Token := (tokens.drop s).take (j - s)

/-- The token at the index `j` ends the statement that begins at the index `s`: it is a semicolon,
and as many braces are opened as closed before it, or it is a closing brace, and with it no more
are opened than closed. -/
def EndsFrom (tokens : List Token) (s j : Nat) : Prop :=
  s ≤ j ∧ ∃ token ∈ tokens[j]?,
    token.value = ";" ∧ opened (stretch tokens s j) = closed (stretch tokens s j) ∨
      token.value = "\x7d" ∧
        opened (stretch tokens s (j + 1)) ≤ closed (stretch tokens s (j + 1))

/-- Reading goes on at the index `k` after an error in the element that begins at `s`: behind the
first token that ends a statement, or at the end of the tokens if there is none. An element that
begins at the end or beyond is left where it is. -/
inductive ResumesAt (tokens : List Token) (s : Nat) : Nat → Prop
  | behind {j : Nat} (h : IsLeast {j | EndsFrom tokens s j} j) : ResumesAt tokens s (j + 1)
  | exhausted (h : ∀ j, ¬EndsFrom tokens s j) : ResumesAt tokens s (max s tokens.length)

variable {tokens : List Token} {s i j : Nat}

/-- Counted from the beginning of the statement, the token is where skipping may stop. -/
theorem endsFrom_add_iff : EndsFrom tokens s (s + i) ↔ SyncPoint 0 (tokens.drop s) i := by
  have hbefore : stretch tokens s (s + i) = (tokens.drop s).take i := by
    rw [stretch, Nat.add_sub_cancel_left]
  have hwith : ∀ token ∈ tokens[s + i]?,
      stretch tokens s (s + i + 1) = (tokens.drop s).take i ++ [token] := by
    intro token htoken
    rw [stretch, Nat.add_assoc, Nat.add_sub_cancel_left, List.take_add_one, List.getElem?_drop,
      Option.mem_def.1 htoken, Option.toList_some]
  rw [syncPoint_iff_getElem?, List.getElem?_drop, EndsFrom, hbefore]
  constructor
  · rintro ⟨-, token, htoken, hends⟩
    rw [hwith token htoken] at hends
    exact ⟨token, htoken, by rwa [EndsStatement, Nat.zero_add, Nat.zero_add]⟩
  · rintro ⟨token, htoken, hends⟩
    rw [EndsStatement, Nat.zero_add, Nat.zero_add] at hends
    refine ⟨Nat.le_add_right s i, token, htoken, ?_⟩
    rwa [hwith token htoken]

/-- Skipping stops behind the first token that ends the statement. -/
theorem resume_of_isLeast (h : IsLeast {j | EndsFrom tokens s j} j) :
    resume (.behind tokens s) = .behind tokens (j + 1) := by
  obtain ⟨hends, hleast⟩ := h
  obtain ⟨i, rfl⟩ := Nat.exists_eq_add_of_le hends.1
  have hskip : skippedLength 0 (tokens.drop s) = i + 1 := by
    refine skippedLength_eq_of_first (endsFrom_add_iff.1 hends) fun k hk hpoint => ?_
    have hle : s + i ≤ s + k := hleast (endsFrom_add_iff.2 hpoint)
    omega
  show Cursor.behind tokens (s + skippedLength 0 (tokens.drop s)) = .behind tokens (s + (i + 1))
  rw [hskip]

private theorem resume_of_not_endsFrom (h : ∀ j, ¬EndsFrom tokens s j) :
    resume (.behind tokens s) = .behind tokens (max s tokens.length) := by
  have hle : (tokens.drop s).length ≤ skippedLength 0 (tokens.drop s) :=
    le_skippedLength (Nat.le_refl _) fun i hi => absurd (endsFrom_add_iff.2 hi) (h _)
  have hskip : skippedLength 0 (tokens.drop s) = tokens.length - s :=
    (Nat.le_antisymm (skippedLength_le 0 _) hle).trans List.length_drop
  have hmax : s + (tokens.length - s) = max s tokens.length := by omega
  show Cursor.behind tokens (s + skippedLength 0 (tokens.drop s)) = _
  rw [hskip, hmax]

private theorem exists_resumesAt (tokens : List Token) (s : Nat) : ∃ k, ResumesAt tokens s k := by
  by_cases h : ∃ j, EndsFrom tokens s j
  · classical
    exact ⟨Nat.find h + 1, .behind ⟨Nat.find_spec h, fun j hj => Nat.find_min' h hj⟩⟩
  · exact ⟨max s tokens.length, .exhausted (not_exists.1 h)⟩

private theorem ResumesAt.resume_eq {k : Nat} (h : ResumesAt tokens s k) :
    resume (.behind tokens s) = .behind tokens k := by
  cases h with
  | behind h => exact resume_of_isLeast h
  | exhausted h => exact resume_of_not_endsFrom h

/-- Whatever goes wrong in the element that begins at an index, and wherever, reading goes on behind
the first token from there on that ends a statement, or comes to the end of the tokens. -/
theorem resume_behind_first_end (tokens : List Token) (s : Nat) :
    ∃ k, ResumesAt tokens s k ∧ resume (.behind tokens s) = .behind tokens k ∧
      ∀ rules fault, s < tokens.length →
        (element rules).run (.behind tokens s) = .error fault →
          readFrom rules true (.behind tokens s) =
            (readFrom rules true (.behind tokens k)).withNoted fault := by
  obtain ⟨k, hk⟩ := exists_resumesAt tokens s
  refine ⟨k, hk, hk.resume_eq, fun rules fault hs hrun => ?_⟩
  have hpos : 0 < (Cursor.behind tokens s).rest.length := by
    rw [Cursor.length_rest_behind]
    omega
  rw [readFrom_of_error hpos hrun, hk.resume_eq, if_pos rfl]

/-- A semicolon inside of a block does not end a statement. The brace that closes the block does,
and so does a brace that closes nothing. -/
example :
    let tokens := ["a", ";", "b", "\x7b", ";", "\x7d", "c"].map (Token.mk {})
    resume (.behind tokens 0) = .behind tokens 2 ∧ resume (.behind tokens 2) = .behind tokens 6 ∧
      resume (.behind tokens 5) = .behind tokens 6 ∧
      resume (.behind tokens 6) = .behind tokens 7 :=
  ⟨rfl, rfl, rfl, rfl⟩

end Script
