import Script.Proofs.Lexer.Cut
/-!
# The front of a text

A text can be cut in two where a token would begin. The pieces in front of that place are made out
with no more than one character of what follows, so they stay the same if something else follows
that begins alike.
-/

namespace Script.Lexer

/-- `text` is gaps and these tokens, if `rest` follows it. -/
inductive Front (rest : List Char) : Position → List Char → List Token → Prop
  | gap {position : Position} {gap : List Char} (hgap : Gap rest gap) : Front rest position gap []
  | token {position : Position} {gap token text : List Char} {tokens : List Token}
      (hgap : Gap (token ++ (text ++ rest)) gap) (htoken : ReadBefore (text ++ rest) token)
      (h : Front rest ((position.after gap).after token) text tokens) :
      Front rest position (gap ++ (token ++ text))
        (⟨position.after gap, String.ofList token⟩ :: tokens)

variable {rest text : List Char} {position : Position} {tokens : List Token}

/-- What begins alike makes no difference in front of it, and a new line makes none either. -/
theorem Front.before (h : Front rest position text tokens) {after : List Char}
    (hafter : BeginsLike rest after) : Front after position text tokens := by
  induction h with
  | gap hgap => exact .gap (hgap.before hafter)
  | @token position gap token text tokens hgap htoken h ih =>
    have htext := hafter.append_left text
    refine .token (hgap.before (htext.append_left token)) (htoken.before fun c hc => ?_) ih
    rcases htext c hc with hsame | rfl
    · exact .inl hsame
    · exact .inr Text.isBlank_newline

theorem front_nil_iff : Front [] position text tokens ↔ Cut position text tokens none := by
  constructor
  · intro h
    induction h with
    | gap hgap => exact .finished hgap
    | token hgap htoken h ih =>
      rw [List.append_nil] at hgap htoken
      exact .token hgap htoken ih
  · intro h
    generalize hunclosed : (none : Option Position) = unclosed? at h
    induction h with
    | finished hgap => exact .gap hgap
    | unclosed => cases hunclosed
    | token hgap htoken h ih =>
      refine .token ?_ ?_ (ih hunclosed)
      · rwa [List.append_nil]
      · rwa [List.append_nil]

theorem Cut.gap_append {gap : List Char} {unclosed? : Option Position}
    (h : Cut (position.after gap) rest tokens unclosed?) (hgap : Gap rest gap) :
    Cut position (gap ++ rest) tokens unclosed? := by
  generalize hstart : position.after gap = start at h
  cases h with
  | finished hmore => exact .finished (Gap.append (by rwa [List.append_nil]) hmore)
  | @unclosed _ more text quote hmore hopens =>
    rw [← hstart, ← position.after_append gap more, ← List.append_assoc]
    exact .unclosed (hgap.append hmore) hopens
  | @token _ more token after tokens _ hmore htoken h =>
    rw [← hstart, ← position.after_append gap more] at h ⊢
    rw [← List.append_assoc]
    exact .token (hgap.append hmore) htoken h

/-- A front and a cut of what follows are a cut of the whole. -/
theorem Front.append_cut (h : Front rest position text tokens) {more : List Token}
    {unclosed? : Option Position} (hrest : Cut (position.after text) rest more unclosed?) :
    Cut position (text ++ rest) (tokens ++ more) unclosed? := by
  induction h with
  | gap hgap => exact hrest.gap_append hgap
  | @token position gap token text tokens hgap htoken h ih =>
    rw [Position.after_append, Position.after_append] at hrest
    rw [List.append_assoc, List.append_assoc]
    exact .token hgap htoken (ih hrest)

theorem Cut.exists_front {place : Position} (h : Cut position text tokens (some place)) :
    ∃ before quote after, text = before ++ quote :: after ∧ OpensString quote after ∧
      Front (quote :: after) position before tokens ∧ place = position.after before := by
  generalize hunclosed : some place = unclosed? at h
  induction h with
  | finished => cases hunclosed
  | @unclosed position gap text quote hgap hopens =>
    exact ⟨gap, quote, text, rfl, hopens, .gap hgap, Option.some.inj hunclosed⟩
  | @token position gap token rest tokens unclosed? hgap htoken h ih =>
    obtain ⟨before, quote, after, rfl, hopens, hfront, hplace⟩ := ih hunclosed
    refine ⟨gap ++ (token ++ before), quote, after, ?_, hopens, .token hgap htoken hfront, ?_⟩
    · rw [List.append_assoc, List.append_assoc]
    · rw [hplace, Position.after_append, Position.after_append]

/-- The lexer stops at a string that is not closed. -/
theorem Front.cut_unclosed {quote : Char} {after : List Char}
    (h : Front (quote :: after) position text tokens) (hopens : OpensString quote after) :
    Cut position (text ++ quote :: after) tokens (some (position.after text)) := by
  have hstring : Cut (position.after text) (quote :: after) [] (some (position.after text)) :=
    @Cut.unclosed (position.after text) [] after quote .nil hopens
  simpa using h.append_cut hstring

end Script.Lexer
