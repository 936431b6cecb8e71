import Script.Proofs.Parser.Bounds
/-!
# What rules see of positions

A rule looks at the tokens through a window that begins at the reader's cursor. As long as a token
is left in it, the window tells the same positions as the reader: those of the tokens, and the end
of the last one. A window without tokens no longer knows of the last one, so there it tells the
beginning of the source.
-/

namespace Script

open Script.Parser

variable {rules : List Rule} {recover : Bool} {tokens : List Token} {c : Cursor} {i : Nat}

/-- The position of the token at the index, or the end of the last one where no token is left. -/
inductive StandsAt (tokens : List Token) (i : Nat) : Position → Prop
  | token {t : Token} (ht : tokens[i]? = some t) : StandsAt tokens i t.position
  | past {last : Token} (hi : tokens.length ≤ i) (hlast : tokens.getLast? = some last) :
      StandsAt tokens i last.endPosition

private theorem Parser.Cursor.standsAt_position (hne : tokens ≠ []) (i : Nat) :
    StandsAt tokens i (behind tokens i).position := by
  by_cases hi : i < tokens.length
  · have ht : tokens[i]? = some tokens[i] := List.getElem?_eq_getElem hi
    rw [position_behind ht]
    exact .token ht
  · have hle : tokens.length ≤ i := Nat.le_of_not_lt hi
    have hlast := List.getLast?_eq_some_getLast hne
    rw [position_behind_of_length_le hle hlast]
    exact .past hle hlast

private theorem StandsAt.unique {p q : Position} (hp : StandsAt tokens i p)
    (hq : StandsAt tokens i q) : p = q := by
  have hlt : ∀ {t : Token}, tokens[i]? = some t → ¬tokens.length ≤ i := fun ht =>
    Nat.not_le_of_lt (List.getElem?_eq_some_iff.1 ht).1
  cases hp with
  | token ht =>
    cases hq with
    | token hu => rw [Option.some.inj (ht.symm.trans hu)]
    | past hi _ => exact absurd hi (hlt ht)
  | past hi hlast =>
    cases hq with
    | token hu => exact absurd hi (hlt hu)
    | past _ hlast' => rw [Option.some.inj (hlast.symm.trans hlast')]

namespace Window

private theorem standsAt_position (hi : i < tokens.length) (n : Nat) :
    StandsAt tokens (i + n) (position (tokens.drop i) n) := by
  have hget : (tokens.drop i)[n]? = tokens[i + n]? := List.getElem?_drop
  have hlast : (tokens.drop i).getLast? = tokens.getLast? := by
    rw [List.getLast?_drop, if_neg (Nat.not_le_of_lt hi)]
  unfold position
  cases ht : tokens[i + n]? with
  | some t =>
    rw [hget, ht]
    exact .token ht
  | none =>
    have hne : tokens ≠ [] := List.ne_nil_of_length_pos (Nat.zero_lt_of_lt hi)
    rw [hget, ht, hlast, List.getLast?_eq_some_getLast hne]
    exact .past (List.getElem?_eq_none_iff.1 ht) (List.getLast?_eq_some_getLast hne)

/-- A window without tokens tells the beginning of the source. -/
theorem position_nil (n : Nat) : position [] n = {} := rfl

/-- Wherever reading gets to, a window that has a token left tells the position that the reader
would report `n` tokens further on: the one of the token there, or behind the last token the end of
it. An error raised through the window is the one that the reader would raise. A window that has no
token left tells the beginning of the source instead. -/
theorem position_of_reached (h : Reached rules recover tokens c) (n : Nat) :
    ∃ i ≤ tokens.length, c = .behind tokens i ∧
      (tokens ≠ [] → StandsAt tokens (i + n) (c.advance n).position) ∧
      (i < tokens.length → position c.rest n = (c.advance n).position ∧
        ∀ kind, (skip n >>= fun _ => fail kind : Parser Element).run c =
          .error (fault c.rest n kind)) ∧
      (i = tokens.length → position c.rest n = {}) := by
  obtain ⟨i, hi, rfl⟩ := h.exists_behind
  have hreader : tokens ≠ [] →
      StandsAt tokens (i + n) ((Cursor.behind tokens i).advance n).position := by
    intro hne
    rw [Cursor.advance_behind]
    exact Cursor.standsAt_position hne (i + n)
  refine ⟨i, hi, rfl, hreader, fun hlt => ?_, fun hend => ?_⟩
  · have hne : tokens ≠ [] := List.ne_nil_of_length_pos (Nat.zero_lt_of_lt hlt)
    have hsame : position (Cursor.behind tokens i).rest n =
        ((Cursor.behind tokens i).advance n).position :=
      (standsAt_position hlt n).unique (hreader hne)
    refine ⟨hsame, fun kind => ?_⟩
    rw [run_bind_of_ok _ (run_skip n _), run_fail, fault, hsame]
  · have hrest : (Cursor.behind tokens i).rest = [] :=
      List.drop_of_length_le (Nat.le_of_eq hend.symm)
    rw [hrest, position_nil]

/-- The last window of a reader that was taken on by a rule, and a place behind its end. -/
theorem position_of_reached_behind_rule :
    let pair : Rule :=
      ⟨"pair", fun _ => true, fun _ => .ok (.value (.reference ⟨"x", {}⟩), 2), true⟩
    let tokens : List Token := [⟨⟨0, 0⟩, "a"⟩, ⟨⟨0, 2⟩, "b"⟩, ⟨⟨1, 4⟩, "cd"⟩]
    Reached [pair] false tokens (.behind tokens 2) ∧ position (tokens.drop 2) 5 = ⟨1, 6⟩ ∧
      ∃ i ≤ tokens.length, Cursor.behind tokens 2 = .behind tokens i ∧
        (tokens ≠ [] → StandsAt tokens (i + 5) ((Cursor.behind tokens 2).advance 5).position) ∧
        (i < tokens.length →
          position (tokens.drop 2) 5 = ((Cursor.behind tokens 2).advance 5).position ∧
          ∀ kind, (skip 5 >>= fun _ => fail kind : Parser Element).run (.behind tokens 2) =
            .error (fault (tokens.drop 2) 5 kind)) ∧
        (i = tokens.length → position (tokens.drop 2) 5 = {}) := by
  intro pair tokens
  have hreached : Reached [pair] false tokens (.behind tokens 2) :=
    .inside (.read .start rfl) List.mem_cons_self
  exact ⟨hreached, rfl, position_of_reached hreached 5⟩

/-- Where the value of an assignment is missing, the rules are asked about a window without tokens.
A rule that fails there points at the beginning of the source, and the reader at the end of the last
token. -/
theorem position_at_end :
    let missing : Rule :=
      ⟨"missing", List.isEmpty, fun window => .error (window.fault 0 .unexpectedEnd), true⟩
    let rules := Rule.defaults ++ [missing]
    let tokens : List Token := [⟨⟨0, 0⟩, "x"⟩, ⟨⟨0, 2⟩, "="⟩]
    Reached rules false tokens (.behind tokens 2) ∧
      position (Cursor.behind tokens 2).rest 0 = ⟨0, 0⟩ ∧
      (Cursor.behind tokens 2).position = ⟨0, 3⟩ ∧
      Settings.parse { rules } tokens "x =" = .error ⟨.unexpectedEnd, ⟨0, 0⟩, "x =", none⟩ ∧
      Settings.parse {} tokens "x =" = .error ⟨.unexpectedEnd, ⟨0, 3⟩, "x =", none⟩ := by
  intro missing rules tokens
  have hvisited : .behind tokens 2 ∈ (element rules).visited (.start tokens) := by decide +kernel
  exact ⟨.inside .start hvisited, rfl, rfl, rfl, rfl⟩

end Window

end Script
