import Script.Lexer
import Script.Proofs.Lexer.Shapes
/-!
# How a text is cut

A text is cut into gaps and tokens, up to its end or up to a string that is not closed. The
relation says which cuts there are without following the scanner; a scanner makes exactly these.
-/

namespace Script.Lexer

/-- The cut of the text that begins at `position`: its tokens, and the quote of the string that is
not closed, if there is one. -/
inductive Cut : Position → List Char → List Token → Option Position → Prop
  | finished {position : Position} {gap : List Char} (hgap : Gap [] gap) :
      Cut position gap [] none
  | unclosed {position : Position} {gap text : List Char} {quote : Char}
      (hgap : Gap (quote :: text) gap) (hopens : OpensString quote text) :
      Cut position (gap ++ quote :: text) [] (some (position.after gap))
  | token {position : Position} {gap token rest : List Char} {tokens : List Token}
      {unclosed? : Option Position} (hgap : Gap (token ++ rest) gap)
      (htoken : ReadBefore rest token)
      (h : Cut ((position.after gap).after token) rest tokens unclosed?) :
      Cut position (gap ++ (token ++ rest)) (⟨position.after gap, String.ofList token⟩ :: tokens)
        unclosed?

variable {gap rest text token : List Char} {s : Scanner}

def Failure.unclosed (quote : Position) : Failure := ⟨.unterminatedString, quote⟩

namespace Scanner

theorem skipGap_of_gap (hs : s.rest = gap ++ rest) (hgap : Gap rest gap)
    (hrest : gapLength false rest = 0) : s.skipGap = ⟨s.position.after gap, rest⟩ := by
  have hlength : gapLength false s.rest = gap.length := by
    rw [hs, hgap.gapLength_append, hrest, Nat.add_zero]
  rw [skipGap, advance, hlength, hs, List.take_left, List.drop_left]

theorem step_of_finished (hgap : Gap [] s.rest) : s.step = .finished := by
  have hskip := skipGap_of_gap (List.append_nil s.rest).symm hgap rfl
  simp only [step, hskip]

theorem step_of_unclosed {quote : Char} (hs : s.rest = gap ++ quote :: text)
    (hgap : Gap (quote :: text) gap) (hopens : OpensString quote text) :
    s.step = .failed (.unclosed (s.position.after gap)) := by
  have hskip := skipGap_of_gap hs hgap (gapLength_quote hopens.isQuote text)
  simp only [step, hskip, hopens.tokenLength?, hopens.isQuote, if_true, Failure.unclosed]

theorem step_of_token (hs : s.rest = gap ++ (token ++ rest)) (hgap : Gap (token ++ rest) gap)
    (htoken : ReadBefore rest token) :
    s.step = .token ⟨s.position.after gap, String.ofList token⟩
      ⟨(s.position.after gap).after token, rest⟩ := by
  have hskip := skipGap_of_gap hs hgap htoken.gapLength_eq_zero
  obtain ⟨c, text, rfl⟩ := List.exists_cons_of_ne_nil htoken.ne_nil
  have htake : (c :: (text ++ rest)).take (text.length + 1) = c :: text := by simp
  have hdrop : (c :: (text ++ rest)).drop (text.length + 1) = rest := by simp
  simp only [step, hskip, List.cons_append, htoken.tokenLength?, advance, htake, hdrop]

end Scanner

/-- Every text can be cut. -/
theorem exists_cut (position : Position) (text : List Char) :
    ∃ tokens unclosed?, Cut position text tokens unclosed? := by
  -- a token is taken as a whole, so the induction is on the length
  induction hn : text.length using Nat.strongRecOn generalizing position text with
  | _ n ih =>
    subst hn
    obtain ⟨gap, after, rfl, hgap, hafter⟩ := exists_gap text
    cases after with
    | nil =>
      rw [List.append_nil]
      exact ⟨[], none, .finished hgap⟩
    | cons c text =>
      rcases opens_or_readBefore hafter with hopens | ⟨token, rest, htext, htoken⟩
      · exact ⟨[], some (position.after gap), .unclosed hgap hopens⟩
      · rw [htext] at hgap ⊢
        have hpos := List.length_pos_iff.2 htoken.ne_nil
        have hlt : rest.length < (gap ++ (token ++ rest)).length := by
          simp only [List.length_append]
          omega
        rw [htext] at ih
        obtain ⟨tokens, unclosed?, h⟩ := ih _ hlt ((position.after gap).after token) rest rfl
        exact ⟨_, unclosed?, .token hgap htoken h⟩

/-- A scanner follows any cut, so there is no other. -/
theorem Cut.scan_eq {position : Position} {tokens : List Token} {unclosed? : Option Position}
    (h : Cut position text tokens unclosed?) {n : Nat} (hn : text.length ≤ n) :
    Scanner.scan n ⟨position, text⟩ = (tokens, unclosed?.map .unclosed) := by
  induction h generalizing n with
  | @finished position gap hgap =>
    cases n with
    | zero => rfl
    | succ n =>
      rw [Scanner.scan, Scanner.step_of_finished hgap]
      rfl
  | @unclosed position gap text quote hgap hopens =>
    obtain ⟨n, rfl⟩ : ∃ m, n = m + 1 := Nat.exists_eq_add_one.2 (by simp at hn; omega)
    rw [Scanner.scan, Scanner.step_of_unclosed rfl hgap hopens]
    rfl
  | @token position gap token rest tokens unclosed? hgap htoken h ih =>
    have hstep := @Scanner.step_of_token gap rest token ⟨position, _⟩ rfl hgap htoken
    have hlt := Nat.lt_of_lt_of_le (Scanner.length_lt_of_step hstep) hn
    obtain ⟨n, rfl⟩ : ∃ m, n = m + 1 := Nat.exists_eq_add_one.2 (Nat.zero_lt_of_lt hlt)
    have hrest := @ih n (Nat.le_of_lt_succ hlt)
    rw [Scanner.scan, hstep]
    simp only [hrest]

private theorem Cut.le_position {position : Position} {tokens : List Token}
    {unclosed? : Option Position} (h : Cut position text tokens unclosed?) :
    ∀ t ∈ tokens, position ≤ t.position := by
  induction h with
  | finished _ => exact List.forall_mem_nil _
  | unclosed _ _ => exact List.forall_mem_nil _
  | @token position gap token rest tokens unclosed? _ _ _ ih =>
    have hgap := position.le_after gap
    have htoken := (position.after gap).le_after token
    refine List.forall_mem_cons.2 ⟨hgap, fun t ht => ?_⟩
    exact Position.le_trans hgap (Position.le_trans htoken (ih t ht))

/-- Each token of a cut stands in front of those that follow it. -/
theorem Cut.before {position : Position} {tokens : List Token} {unclosed? : Option Position}
    (h : Cut position text tokens unclosed?) : tokens.Pairwise Token.Before := by
  induction h with
  | finished _ => exact .nil
  | unclosed _ _ => exact .nil
  | @token position gap token rest tokens unclosed? _ htoken h ih =>
    refine List.pairwise_cons.2 ⟨fun t ht => ?_, ih⟩
    exact Position.lt_of_lt_of_le (Position.lt_after _ htoken.ne_nil) (h.le_position t ht)

theorem Cut.exists_of_mem {position : Position} {tokens : List Token}
    {unclosed? : Option Position} (h : Cut position text tokens unclosed?) {t : Token}
    (ht : t ∈ tokens) :
    ∃ ahead rest, text = ahead ++ (t.value.toList ++ rest) ∧ t.position = position.after ahead ∧
      ReadBefore rest t.value.toList := by
  induction h with
  | finished => cases ht
  | unclosed => cases ht
  | @token position gap token rest tokens unclosed? hgap htoken h ih =>
    rcases List.mem_cons.1 ht with rfl | ht
    · rw [String.toList_ofList]
      exact ⟨gap, rest, rfl, rfl, htoken⟩
    · obtain ⟨ahead, behind, rfl, hposition, hread⟩ := ih ht
      refine ⟨gap ++ (token ++ ahead), behind, by simp only [List.append_assoc], ?_, hread⟩
      rw [hposition, Position.after_append, Position.after_append]

end Script.Lexer

namespace Script

open Lexer

variable {source : String}

theorem Lexer.Cut.tokenize_eq {tokens : List Token} {unclosed? : Option Position}
    (h : Cut {} (Text.withoutReturns source) tokens unclosed?) (file : Option String) :
    tokenize source file =
      match unclosed? with
      | none => .ok ⟨file, tokens⟩
      | some quote =>
        .error ⟨.unterminatedString, quote, String.ofList (Text.withoutReturns source), file⟩ := by
  have hscan : (Scanner.ofSource source).tokens = (tokens, unclosed?.map .unclosed) :=
    h.scan_eq (Nat.le_refl _)
  rw [tokenize, hscan]
  cases unclosed? with
  | none => rfl
  | some quote => rfl

/-- A source has tokens if it can be cut up to its end. -/
theorem tokenize_eq_ok_iff {file : Option String} {tokenized : Tokenized} :
    tokenize source file = .ok tokenized ↔ tokenized.file = file ∧
      Cut {} (Text.withoutReturns source) tokenized.tokens none := by
  obtain ⟨file', tokens⟩ := tokenized
  constructor
  · intro h
    obtain ⟨tokens', unclosed?, hcut⟩ := exists_cut {} (Text.withoutReturns source)
    rw [hcut.tokenize_eq] at h
    cases unclosed? with
    | none =>
      obtain ⟨rfl, rfl⟩ := Tokenized.mk.inj (Except.ok.inj h)
      exact ⟨rfl, hcut⟩
    | some quote => cases h
  · rintro ⟨rfl, hcut⟩
    exact hcut.tokenize_eq file'

/-- A token with no carriage return in it is the only token of its own text. -/
theorem Lexer.ReadBefore.tokenize_eq {text : List Char} (h : ReadBefore [] text)
    (hreturn : '\r' ∉ text) (file : Option String) :
    tokenize (String.ofList text) file = .ok ⟨file, [⟨{}, String.ofList text⟩]⟩ := by
  refine tokenize_eq_ok_iff.2 ⟨rfl, ?_⟩
  have hgap : ∀ rest, Gap rest [] := fun rest => .of_isBlank (List.forall_mem_nil _)
  have hcut : Cut {} ([] ++ (text ++ [])) [⟨{}, String.ofList text⟩] none :=
    .token (hgap _) h (.finished (hgap []))
  rw [List.nil_append, List.append_nil] at hcut
  rw [Text.withoutReturns_ofList hreturn]
  exact hcut

theorem tokenize_before {file : Option String} {tokenized : Tokenized}
    (h : tokenize source file = .ok tokenized) : tokenized.tokens.Pairwise Token.Before :=
  (tokenize_eq_ok_iff.1 h).2.before

end Script
