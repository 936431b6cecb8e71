import Mathlib.Logic.Function.Iterate
import Script.Program.Progress
import Script.Proofs.Parser.InRange
import Script.Proofs.Recovery.Agreement
/-!
# Reading stays within the tokens and comes to its end

Rules may claim any tokens, fail in any way and report any number of tokens. Whatever they do, the
reader never stands beyond the last token, every element and every recovery takes it on by a token,
and so it comes to its end.
-/

namespace Script.Parser

variable {α : Type}

/-! ### Cursors by index -/

namespace Cursor

variable {tokens : List Token} {i : Nat} {d : Cursor}

theorem length_rest_behind (tokens : List Token) (i : Nat) :
    (behind tokens i).rest.length = tokens.length - i :=
  List.length_drop

theorem position_behind {token : Token} (h : tokens[i]? = some token) :
    (behind tokens i).position = token.position := by
  obtain ⟨rest, hrest⟩ := List.head?_eq_some_iff.1 (List.head?_drop.trans h)
  rw [position, Cursor.rest, behind, hrest]

theorem position_behind_of_length_le {last : Token} (hi : tokens.length ≤ i)
    (h : tokens.getLast? = some last) : (behind tokens i).position = last.endPosition := by
  rw [position, Cursor.rest, behind, List.drop_of_length_le hi, h]
  rfl

end Cursor

/-! ### Recursion -/

/-- As many rounds as there are tokens are enough: whatever stands for the others, it is not run. -/
def Settles (body : Parser α → Parser α) : Prop :=
  ∀ (n : Nat) (p : Parser α) (c : Cursor), c.rest.length < n →
    (body^[n] p).outcome c = (recursive body).outcome c

private theorem Progressive.settles {body : Parser α → Parser α} (h : Progressive body) :
    Settles body := by
  intro n p c hc
  induction n generalizing c with
  | zero => omega
  | succ n ih =>
    rw [Function.iterate_succ_apply', recursive_eq h]
    exact h _ _ c fun d hd => ih d (by omega)

structure RecursionsSettle (rules : List Rule) : Prop where
  suffixes : Settles suffixesBody
  items : ∀ {α : Type} (item : Parser α), Settles (itemsBody item)
  expression : Settles (expressionBody rules)
  block : Settles (blockBody (element rules))
  element : Settles (elementBody rules)

private theorem recursionsSettle (rules : List Rule) : RecursionsSettle rules where
  suffixes := progressive_suffixesBody.settles
  items item := (progressive_itemsBody item).settles
  expression := (progressive_expressionBody rules).settles
  block := (progressive_blockBody (advances_element rules)).settles
  element := (progressive_elementBody rules).settles

end Script.Parser

namespace Script

open Script.Parser

variable {rules : List Rule} {recover : Bool} {tokens : List Token} {c d : Cursor}

/-! ### Where reading gets to -/

/-- Reading a program comes to the cursor between two of its elements. -/
inductive BetweenElements (rules : List Rule) (recover : Bool) (tokens : List Token) : Cursor → Prop
  | start : BetweenElements rules recover tokens (.start tokens)
  | read {c d : Cursor} {element? : Option Element} (h : BetweenElements rules recover tokens c)
      (hrun : (element rules).run c = .ok (element?, d)) : BetweenElements rules recover tokens d
  | resumed {c : Cursor} {fault : Fault} (h : BetweenElements rules recover tokens c)
      (hrecover : recover = true) (hrun : (element rules).run c = .error fault) :
      BetweenElements rules recover tokens (resume c)

/-- Reading a program comes to the cursor: between its elements, inside of one, or where what is
left of a malformed one is skipped. -/
inductive Reached (rules : List Rule) (recover : Bool) (tokens : List Token) (d : Cursor) : Prop
  | inside {c : Cursor} (h : BetweenElements rules recover tokens c)
      (hd : d ∈ (element rules).visited c)
  | skipping {c : Cursor} {fault : Fault} {n : Nat} (h : BetweenElements rules recover tokens c)
      (hrecover : recover = true) (hrun : (element rules).run c = .error fault)
      (hn : n ≤ skippedLength 0 c.rest) (hd : d = c.advance n)

theorem skippedLength_le (depth : Nat) (tokens : List Token) :
    skippedLength depth tokens ≤ tokens.length := by
  induction tokens generalizing depth with
  | nil => exact Nat.le_refl 0
  | cons token rest ih =>
    have hdeeper := ih (depth + 1)
    have hhigher := ih (depth - 1)
    have hlevel := ih depth
    rw [skippedLength, List.length_cons]
    split
    · omega
    · split
      · split <;> omega
      · split <;> omega

/-- All cursors that a program is read from lie within its tokens. -/
theorem BetweenElements.exists_behind (h : BetweenElements rules recover tokens c) :
    ∃ i ≤ tokens.length, c = .behind tokens i := by
  induction h with
  | start => exact ⟨0, Nat.zero_le _, rfl⟩
  | read _ hrun ih =>
    obtain ⟨i, hi, rfl⟩ := ih
    have hc : (Cursor.behind tokens i).InRange := hi
    have hd := (stays_element rules _).inRange_of_ok hc hrun
    obtain ⟨n, rfl⟩ := (element rules).reaches hrun
    exact ⟨i + n, hd, rfl⟩
  | @resumed c fault _ _ _ ih =>
    obtain ⟨i, hi, rfl⟩ := ih
    have hd : (resume (.behind tokens i)).InRange := Cursor.InRange.advance hi (skippedLength_le 0 _)
    exact ⟨_, hd, rfl⟩

theorem Reached.exists_behind (h : Reached rules recover tokens d) :
    ∃ i ≤ tokens.length, d = .behind tokens i := by
  cases h with
  | inside h hd =>
    obtain ⟨i, hi, rfl⟩ := h.exists_behind
    have hc : (Cursor.behind tokens i).InRange := hi
    have hrange := (stays_element rules _).inRange_of_mem_visited hc hd
    obtain ⟨⟨n, rfl⟩, -⟩ := Cursor.reaches_of_mem_along hd
    exact ⟨i + n, hrange, rfl⟩
  | skipping h _ _ hn hd =>
    obtain ⟨i, hi, rfl⟩ := h.exists_behind
    have hc : (Cursor.behind tokens i).InRange := hi
    subst hd
    have hrange := hc.advance (Nat.le_trans hn (skippedLength_le 0 _))
    exact ⟨i + _, hrange, rfl⟩

/-! ### The end of reading -/

/-- Reading on from the cursor comes to its end, with this outcome. -/
inductive ReadsTo (rules : List Rule) (recover : Bool) : Cursor → Outcome → Prop
  | finished {c : Cursor} (hc : c.rest = []) : ReadsTo rules recover c {}
  | read {c d : Cursor} {element? : Option Element} {outcome : Outcome} (hc : c.rest ≠ [])
      (hrun : (element rules).run c = .ok (element?, d)) (h : ReadsTo rules recover d outcome) :
      ReadsTo rules recover c (outcome.withElement element?)
  | noted {c : Cursor} {fault : Fault} {outcome : Outcome} (hc : c.rest ≠ [])
      (hrecover : recover = true) (hrun : (element rules).run c = .error fault)
      (h : ReadsTo rules recover (resume c) outcome) :
      ReadsTo rules recover c (outcome.withNoted fault)
  | ended {c : Cursor} {fault : Fault} (hc : c.rest ≠ []) (hrecover : recover = false)
      (hrun : (element rules).run c = .error fault) :
      ReadsTo rules recover c { fatal? := some fault }

/-- The outcome of reading is the one that its steps lead to. -/
theorem readsTo_readFrom (rules : List Rule) (recover : Bool) (c : Cursor) :
    ReadsTo rules recover c (readFrom rules recover c) := by
  by_cases hc : c.rest = []
  · rw [readFrom_nil hc]
    exact .finished hc
  · have hpos : 0 < c.rest.length := List.length_pos_iff.2 hc
    cases hrun : (element rules).run c with
    | ok r =>
      obtain ⟨element?, d⟩ := r
      have hlt := advances_element rules _ _ _ hpos hrun
      rw [readFrom_of_ok hpos hrun]
      exact .read hc hrun (readsTo_readFrom rules recover d)
    | error fault =>
      have hlt := length_resume_lt hpos
      rw [readFrom_of_error hpos hrun]
      cases recover with
      | true => exact .noted hc rfl hrun (readsTo_readFrom rules true (resume c))
      | false => exact .ended hc rfl hrun
termination_by c.rest.length

/-- Whatever the rules do, reading stays within the tokens, every element and every recovery takes
it on, it comes to its end, and with recovery no error ends it. -/
theorem Settings.parse_progresses (settings : Settings) (tokens : List Token) (source : String) :
    (∀ c, Reached settings.rules settings.recover tokens c →
      ∃ i ≤ tokens.length, c = .behind tokens i) ∧
    (∀ i < tokens.length, ∀ element? d,
      (element settings.rules).run (.behind tokens i) = .ok (element?, d) →
        ∃ j, i < j ∧ j ≤ tokens.length ∧ d = .behind tokens j) ∧
    (∀ i < tokens.length,
      ∃ j, i < j ∧ j ≤ tokens.length ∧ resume (.behind tokens i) = .behind tokens j) ∧
    ReadsTo settings.rules settings.recover (.start tokens)
      (readProgram settings.rules settings.recover tokens) ∧
    RecursionsSettle settings.rules ∧
    (settings.recover = true → ∃ parsed, settings.parse tokens source = .ok parsed) := by
  have hleft : ∀ i < tokens.length, 0 < (Cursor.behind tokens i).rest.length := by
    intro i hi
    rw [Cursor.length_rest_behind]
    omega
  refine ⟨fun c hc => hc.exists_behind, fun i hi element? d hrun => ?_, fun i hi => ?_,
    readsTo_readFrom _ _ _, recursionsSettle _, fun hrecover => ?_⟩
  · have hc : (Cursor.behind tokens i).InRange := Nat.le_of_lt hi
    have hrange := (stays_element _ _).inRange_of_ok hc hrun
    have hlt := advances_element _ _ _ _ (hleft i hi) hrun
    obtain ⟨n, rfl⟩ := Parser.reaches _ hrun
    rw [Cursor.rest_advance, List.length_drop] at hlt
    exact ⟨i + n, by omega, hrange, rfl⟩
  · have hne : (Cursor.behind tokens i).rest ≠ [] := List.ne_nil_of_length_pos (hleft i hi)
    have hpos := skippedLength_pos 0 hne
    have hrange : (resume (.behind tokens i)).InRange :=
      Cursor.InRange.advance (Nat.le_of_lt hi) (skippedLength_le 0 _)
    exact ⟨_, Nat.lt_add_of_pos_right hpos, hrange, rfl⟩
  · refine ⟨_, parse_eq_ok_iff.2 ⟨?_, rfl⟩⟩
    rw [hrecover]
    exact fatal?_readElements_recover _ _ _

/-- A rule that claims any tokens and says it is made of none of them, or of more than there are. -/
example :
    let greedy (n : Nat) : Rule :=
      ⟨"greedy", fun _ => true, fun _ => .ok (.value (.reference ⟨"x", {}⟩), n), true⟩
    let tokens := ["a", "b", "c"].map (Token.mk {})
    (readProgram [greedy 0] false tokens).elements.length = 3 ∧
      (readProgram [greedy 100] false tokens).elements.length = 1 :=
  ⟨rfl, rfl⟩

end Script
