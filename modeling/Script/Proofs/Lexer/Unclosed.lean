import Script.Proofs.Lexer.Front
import Script.Proofs.Lexer.Partition
/-!
# Where a lexer fails

A lexer fails at one place only: where a token would begin at a quote, and the string is not closed
before its line ends. Up to there it gives the tokens that the text in front of the quote has by
itself, and nothing behind it.
-/

namespace Script

namespace Lexer

/-! ### Strings that are not closed -/

/-- Whether a backslash takes along the character behind a text. It does not if it is itself taken
along by the one before it. -/
def takesAlong (text : List Char) : Bool := text.foldl (fun taken c => !taken && c == '\\') false

def ClosedInLine (quote : Char) (text : List Char) : Prop :=
  ∃ before after, text = before ++ quote :: after ∧ '\n' ∉ before ∧ takesAlong before = false

/-- A string begins behind `before` that is not closed: a token would begin at its quote. -/
structure BreaksOff (text before : List Char) (quote : Char) (after : List Char) : Prop where
  text_eq : text = before ++ quote :: after
  /-- All that stands in front of the quote is gaps and tokens. -/
  token_begins : ∃ tokens, Front (quote :: after) {} before tokens
  isQuote : isQuote quote = true
  not_closed : ¬ClosedInLine quote after

variable {quote c : Char} {text body rest : List Char}

theorem takesAlong_backslash (c : Char) (text : List Char) :
    takesAlong ('\\' :: c :: text) = takesAlong text := rfl

theorem takesAlong_other (hc : c ≠ '\\') (text : List Char) :
    takesAlong (c :: text) = takesAlong text := by
  unfold takesAlong
  have hno : (c == '\\') = false := beq_eq_false_iff_ne.2 hc
  rw [List.foldl_cons, hno, Bool.and_false]

/-- The quote that closes a string is one that no backslash takes along. -/
theorem Closes.exists_front (h : Closes quote body) :
    ∃ front, body = front ++ [quote] ∧ '\n' ∉ front ∧ takesAlong front = false := by
  induction h with
  | quote => exact ⟨[], rfl, List.not_mem_nil, rfl⟩
  | @escape c text hc h ih =>
    obtain ⟨front, rfl, hline, htaken⟩ := ih
    refine ⟨'\\' :: c :: front, rfl, ?_, ?_⟩
    · simp [hc.symm, hline]
    · rw [takesAlong_backslash, htaken]
  | @plain c text hquote hnewline hslash h ih =>
    obtain ⟨front, rfl, hline, htaken⟩ := ih
    refine ⟨c :: front, rfl, ?_, ?_⟩
    · simp [hnewline.symm, hline]
    · rw [takesAlong_other hslash, htaken]

theorem Closes.takesAlong_of_append (h : Closes quote body) (hq : isQuote quote = true)
    {before after : List Char} (heq : body = before ++ quote :: after) (hafter : after ≠ []) :
    takesAlong before = true := by
  have hquote : quote ≠ '\\' := ne_of_isQuote hq rfl
  induction h generalizing before with
  | quote =>
    have hlength := congrArg List.length heq
    have hpos := List.length_pos_iff.2 hafter
    simp only [List.length_append, List.length_cons, List.length_nil] at hlength
    omega
  | escape hc h ih =>
    match before with
    | [] => exact absurd (List.cons.inj heq).1.symm hquote
    | [d] =>
      obtain rfl := (List.cons.inj heq).1
      rfl
    | d :: e :: before =>
      obtain ⟨rfl, htail⟩ := List.cons.inj heq
      rw [takesAlong_backslash]
      exact ih (List.cons.inj htail).2
  | plain hother hnewline hslash h ih =>
    match before with
    | [] => exact absurd (List.cons.inj heq).1 hother
    | d :: before =>
      obtain ⟨rfl, htail⟩ := List.cons.inj heq
      rw [takesAlong_other hslash]
      exact ih htail

/-- Up to the first quote that no backslash takes along a string goes on. -/
theorem exists_closes_of_takesAlong {before : List Char} (hline : '\n' ∉ before)
    (htaken : takesAlong before = false) (after : List Char) :
    ∃ body rest, before ++ quote :: after = body ++ rest ∧ Closes quote body := by
  -- a backslash and what it takes along are one step, so the induction is on the length
  induction hn : before.length using Nat.strongRecOn generalizing before with
  | _ n ih =>
    subst hn
    cases before with
    | nil => exact ⟨[quote], after, rfl, .quote⟩
    | cons c before =>
      simp only [List.mem_cons, not_or] at hline
      by_cases hquote : c = quote
      · exact ⟨[c], before ++ quote :: after, rfl, hquote ▸ .quote⟩
      · by_cases hslash : c = '\\'
        · subst hslash
          cases before with
          | nil => cases htaken
          | cons d before =>
            simp only [List.mem_cons, not_or] at hline
            rw [takesAlong_backslash] at htaken
            have hlt : before.length < ('\\' :: d :: before).length := by
              simp only [List.length_cons]
              omega
            obtain ⟨body, rest, heq, hbody⟩ := ih _ hlt hline.2.2 htaken rfl
            refine ⟨'\\' :: d :: body, rest, ?_, .escape (Ne.symm hline.2.1) hbody⟩
            rw [List.cons_append, List.cons_append, heq]
            rfl
        · rw [takesAlong_other hslash] at htaken
          obtain ⟨body, rest, heq, hbody⟩ := ih _ (Nat.lt_succ_self _) hline.2 htaken rfl
          refine ⟨c :: body, rest, ?_, .plain hquote (Ne.symm hline.1) hslash hbody⟩
          rw [List.cons_append, heq]
          rfl

theorem opensString_iff :
    OpensString quote text ↔ isQuote quote = true ∧ ¬ClosedInLine quote text := by
  constructor
  · intro h
    refine ⟨h.isQuote, ?_⟩
    rintro ⟨before, after, rfl, hline, htaken⟩
    obtain ⟨body, rest, heq, hbody⟩ := exists_closes_of_takesAlong hline htaken after
    exact h.not_closes heq hbody
  · rintro ⟨hquote, hopen⟩
    refine ⟨hquote, fun {body rest} heq hbody => ?_⟩
    obtain ⟨front, rfl, hline, htaken⟩ := hbody.exists_front
    rw [List.append_assoc] at heq
    exact hopen ⟨front, rest, heq, hline, htaken⟩

/-! ### One call after the other -/

def results : Lexer → Nat → Option (Except (Diagnostic LexicalError) Token)
  | lexer, 0 => lexer.next.1
  | lexer, n + 1 => results lexer.next.2 n

private theorem results_of_ended {lexer : Lexer} (h : lexer.next = (none, lexer)) (n : Nat) :
    lexer.results n = none := by
  induction n with
  | zero => rw [results, h]
  | succ n ih => rw [results, h, ih]

/-- A lexer gives the tokens of a cut one by one, and then the error if there is one. -/
theorem Cut.results_eq {position : Position} {tokens : List Token} {unclosed? : Option Position}
    (h : Cut position text tokens unclosed?) {lexer : Lexer}
    (hscanner : lexer.scanner? = some ⟨position, text⟩) (n : Nat) :
    lexer.results n =
      (tokens.map Except.ok ++ (unclosed?.map fun quote =>
        Except.error ⟨.unterminatedString, quote, lexer.source, lexer.file⟩).toList)[n]? := by
  induction h generalizing lexer n with
  | @finished position gap hgap =>
    have hstep : (Scanner.mk position gap).step = .finished := Scanner.step_of_finished hgap
    have hnext : lexer.next = (none, lexer) := by simp [next, hscanner, hstep]
    rw [results_of_ended hnext]
    rfl
  | @unclosed position gap text quote hgap hopens =>
    have hstep := @Scanner.step_of_unclosed gap text ⟨position, _⟩ quote rfl hgap hopens
    have hnext : lexer.next = (some (.error ⟨.unterminatedString, position.after gap, lexer.source,
        lexer.file⟩), { lexer with scanner? := none }) := by
      simp [next, hscanner, hstep, diagnose, Failure.unclosed]
    cases n with
    | zero => rw [results, hnext]; rfl
    | succ n =>
      rw [results, hnext, results_of_ended (next_of_stopped rfl)]
      rfl
  | @token position gap token rest tokens unclosed? hgap htoken h ih =>
    have hstep := @Scanner.step_of_token gap rest token ⟨position, _⟩ rfl hgap htoken
    have hnext : lexer.next = (some (.ok ⟨position.after gap, String.ofList token⟩),
        { lexer with scanner? := some ⟨(position.after gap).after token, rest⟩ }) := by
      simp [next, hscanner, hstep]
    cases n with
    | zero => rw [results, hnext]; rfl
    | succ n =>
      rw [results, hnext, ih rfl]
      rfl

section

variable {position : Position} {tokens : List Token} {unclosed? : Option Position} {lexer : Lexer}
  {n : Nat}

theorem Cut.mem_of_results (h : Cut position text tokens unclosed?)
    (hscanner : lexer.scanner? = some ⟨position, text⟩) {t : Token}
    (hresult : lexer.results n = some (.ok t)) : t ∈ tokens := by
  rw [h.results_eq hscanner] at hresult
  rcases List.mem_append.1 (List.mem_of_getElem? hresult) with hmem | hmem
  · obtain ⟨u, hu, heq⟩ := List.mem_map.1 hmem
    exact Except.ok.inj heq ▸ hu
  · rw [Option.mem_toList, Option.map_eq_some_iff] at hmem
    obtain ⟨quote, -, heq⟩ := hmem
    cases heq

theorem Cut.results_of_lt (h : Cut position text tokens unclosed?)
    (hscanner : lexer.scanner? = some ⟨position, text⟩) (hn : n < tokens.length) :
    lexer.results n = tokens[n]?.map Except.ok := by
  rw [h.results_eq hscanner, List.getElem?_append_left (by simpa using hn), List.getElem?_map]

private theorem Cut.results_length (h : Cut position text tokens unclosed?)
    (hscanner : lexer.scanner? = some ⟨position, text⟩) :
    lexer.results tokens.length = unclosed?.map fun quote =>
      Except.error ⟨.unterminatedString, quote, lexer.source, lexer.file⟩ := by
  rw [h.results_eq hscanner, List.getElem?_append_right (by simp), List.length_map, Nat.sub_self]
  cases unclosed? with
  | none => rfl
  | some quote => rfl

theorem Cut.results_of_gt (h : Cut position text tokens unclosed?)
    (hscanner : lexer.scanner? = some ⟨position, text⟩) (hn : tokens.length < n) :
    lexer.results n = none := by
  rw [h.results_eq hscanner, List.getElem?_eq_none_iff, List.length_append, List.length_map]
  have hone : ∀ {α : Type} (a? : Option α), a?.toList.length ≤ 1 := by
    intro α a?
    cases a? <;> simp
  have := hone (unclosed?.map fun quote => (Except.error ⟨.unterminatedString, quote, lexer.source,
    lexer.file⟩ : Except (Diagnostic LexicalError) Token))
  omega

private theorem Cut.results_eq_error_iff (h : Cut position text tokens unclosed?)
    (hscanner : lexer.scanner? = some ⟨position, text⟩) {error : Diagnostic LexicalError} :
    lexer.results n = some (.error error) ↔ n = tokens.length ∧ ∃ quote, unclosed? = some quote ∧
      error = ⟨.unterminatedString, quote, lexer.source, lexer.file⟩ := by
  constructor
  · intro herror
    rcases Nat.lt_trichotomy n tokens.length with hlt | rfl | hgt
    · rw [h.results_of_lt hscanner hlt, Option.map_eq_some_iff] at herror
      obtain ⟨token, -, hok⟩ := herror
      cases hok
    · rw [h.results_length hscanner, Option.map_eq_some_iff] at herror
      obtain ⟨quote, hquote, heq⟩ := herror
      exact ⟨rfl, quote, hquote, (Except.error.inj heq).symm⟩
    · rw [h.results_of_gt hscanner hgt] at herror
      cases herror
  · rintro ⟨rfl, quote, rfl, rfl⟩
    rw [h.results_length hscanner, Option.map_some]

end

/-- The text breaks off where its cut ends. -/
theorem Cut.exists_breaksOff {tokens : List Token} {place : Position}
    (h : Cut {} text tokens (some place)) :
    ∃ before quote after, BreaksOff text before quote after ∧ place = .behind before ∧
      Cut {} before tokens none := by
  obtain ⟨before, quote, after, rfl, hopens, hfront, rfl⟩ := h.exists_front
  obtain ⟨hquote, hopen⟩ := opensString_iff.1 hopens
  refine ⟨before, quote, after, ⟨rfl, ⟨tokens, hfront⟩, hquote, hopen⟩, ?_, ?_⟩
  · exact Position.after_behind [] before
  · exact front_nil_iff.1 (hfront.before fun c hc => by cases hc)

private theorem BreaksOff.exists_cut {before after : List Char}
    (h : BreaksOff text before quote after) :
    ∃ tokens place, Cut {} text tokens (some place) := by
  obtain ⟨tokens, hfront⟩ := h.token_begins
  rw [h.text_eq]
  exact ⟨tokens, _, hfront.cut_unclosed (opensString_iff.2 ⟨h.isQuote, h.not_closed⟩)⟩

end Lexer

open Lexer

/-- A lexer gives an error if and only if its source breaks off at a string. The error is at the
quote, behind the tokens that the text in front of the quote has by itself. Once it has given no
token a lexer gives nothing any more. -/
theorem Lexer.results_fail_at_string (source : String) (file : Option String) :
    let text := Text.withoutReturns source
    let results := (Lexer.ofSource source file).results
    ((∃ n error, results n = some (.error error)) ↔
        ∃ before quote after, BreaksOff text before quote after) ∧
      (∀ n error, results n = some (.error error) → error.kind = .unterminatedString ∧
        ∃ before quote after, BreaksOff text before quote after ∧
          error.position = .behind before ∧
          ∃ tokens, tokenize (String.ofList before) file = .ok ⟨file, tokens⟩ ∧
            tokens.length = n ∧ ∀ i < n, results i = tokens[i]?.map .ok) ∧
      (∀ n, (∀ token, results n ≠ some (.ok token)) → ∀ m > n, results m = none) ∧
      ∀ error, tokenize source file = .error error ↔ ∃ n, results n = some (.error error) := by
  intro text results
  have hscanner : (Lexer.ofSource source file).scanner? = some ⟨{}, text⟩ := rfl
  obtain ⟨tokens, unclosed?, hcut⟩ := exists_cut {} text
  refine ⟨⟨?_, ?_⟩, ?_, ?_, ?_⟩
  · rintro ⟨n, error, herror⟩
    obtain ⟨-, place, rfl, -⟩ := (hcut.results_eq_error_iff hscanner).1 herror
    obtain ⟨before, quote, after, hbreaks, -⟩ := hcut.exists_breaksOff
    exact ⟨before, quote, after, hbreaks⟩
  · rintro ⟨before, quote, after, hbreaks⟩
    obtain ⟨tokens, place, hbroken⟩ := hbreaks.exists_cut
    exact ⟨_, _, (hbroken.results_eq_error_iff hscanner).2 ⟨rfl, place, rfl, rfl⟩⟩
  · intro n error herror
    obtain ⟨rfl, place, rfl, rfl⟩ := (hcut.results_eq_error_iff hscanner).1 herror
    obtain ⟨before, quote, after, hbreaks, hplace, hbefore⟩ := hcut.exists_breaksOff
    refine ⟨rfl, before, quote, after, hbreaks, hplace, tokens, ?_, rfl, ?_⟩
    · have htext : Text.withoutReturns source = before ++ quote :: after := hbreaks.text_eq
      have hreturn := Text.return_notMem_withoutReturns source
      rw [htext, List.mem_append, not_or] at hreturn
      rw [← Text.withoutReturns_ofList hreturn.1] at hbefore
      exact hbefore.tokenize_eq file
    · exact fun i hi => hcut.results_of_lt hscanner hi
  · intro n hno m hm
    apply hcut.results_of_gt hscanner
    by_contra hle
    have hlt : n < tokens.length := by omega
    have hresult : results n = tokens[n]?.map .ok := hcut.results_of_lt hscanner hlt
    apply hno tokens[n]
    rw [hresult, List.getElem?_eq_getElem hlt, Option.map_some]
  · intro error
    rw [hcut.tokenize_eq]
    constructor
    · intro herror
      cases unclosed? with
      | none => cases herror
      | some place =>
        refine ⟨tokens.length, (hcut.results_eq_error_iff hscanner).2 ⟨rfl, place, rfl, ?_⟩⟩
        exact (Except.error.inj herror).symm
    · rintro ⟨n, herror⟩
      obtain ⟨-, place, rfl, rfl⟩ := (hcut.results_eq_error_iff hscanner).1 herror
      rfl

/-- A backslash at the end of a line takes nothing along that would close the string. -/
example : tokenize "a 'b\\\n'" none =
    .error ⟨.unterminatedString, ⟨0, 2⟩, "a 'b\\\n'", none⟩ := by
  decide +kernel

end Script
