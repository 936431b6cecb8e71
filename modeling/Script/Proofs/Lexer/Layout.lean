import Script.Proofs.Lexer.Cut
/-!
# Layout does not matter

A token that is read somewhere is read in front of a blank as well. So the tokens of a source can
be laid out anew, with other blanks and comments between them, and they are read again.
-/

namespace Script

namespace Lexer

inductive Filling : List Char → Prop
  | nil : Filling []
  | blank {c : Char} {text : List Char} (hc : Text.isBlank c = true) (h : Filling text) :
      Filling (c :: text)
  | comment {body text : List Char} (hbody : '\n' ∉ body) (h : Filling text) :
      Filling ('/' :: '/' :: (body ++ '\n' :: text))

/-- What keeps two tokens apart. It begins with a blank, and with one that is not taken out. -/
inductive Separator : List Char → Prop
  | mk {c : Char} {text : List Char} (hc : Text.isBlank c = true) (hreturn : c ≠ '\r')
      (h : Filling text) : Separator (c :: text)

def Margin (text : List Char) : Prop := text = [] ∨ Separator text

inductive Separated : List String → List Char → Prop
  | nil : Separated [] []
  | single (value : String) : Separated [value] value.toList
  | cons {value next : String} {values : List String} {separator text : List Char}
      (hseparator : Separator separator) (h : Separated (next :: values) text) :
      Separated (value :: next :: values) (value.toList ++ (separator ++ text))

/-- A text with these values, and with separators around them. -/
inductive Layout (values : List String) : List Char → Prop
  | mk {before text behind : List Char} (hbefore : Margin before) (h : Separated values text)
      (hbehind : Margin behind) : Layout values (before ++ (text ++ behind))

variable {text rest token : List Char} {values : List String}

/-! ### Separators -/

private theorem Filling.append {more : List Char} (h : Filling text) (hmore : Filling more) :
    Filling (text ++ more) := by
  induction h with
  | nil => exact hmore
  | blank hc h ih => exact .blank hc ih
  | @comment body text hbody h ih =>
    rw [List.cons_append, List.cons_append, List.append_assoc, List.cons_append]
    exact .comment hbody ih

private theorem Filling.gap (h : Filling text) (rest : List Char) : Gap rest text := by
  induction h with
  | nil => exact .nil
  | blank hc h ih => exact .blank hc ih
  | comment hbody h ih => exact .comment hbody (by simp) (.blank Text.isBlank_newline ih)

theorem Separator.filling (h : Separator text) : Filling text := by
  cases h with
  | mk hc hreturn h => exact .blank hc h

theorem Separator.isBlank_head (h : Separator text) (rest : List Char) :
    ∀ c ∈ (text ++ rest).head?, Text.isBlank c = true := by
  cases h with
  | mk hc hreturn h => simpa using hc

theorem Margin.filling (h : Margin text) : Filling text := by
  rcases h with rfl | h
  · exact .nil
  · exact h.filling

private theorem Margin.isBlank_head (h : Margin text) :
    ∀ c ∈ text.head?, Text.isBlank c = true := by
  rcases h with rfl | h
  · simp
  · simpa using h.isBlank_head []

/-! ### Carriage returns -/

private theorem Filling.filter (h : Filling text) : Filling (text.filter (· ≠ '\r')) := by
  induction h with
  | nil => exact .nil
  | @blank c text hc h ih =>
    by_cases hreturn : c = '\r'
    · simpa [hreturn] using ih
    · simpa [hreturn] using ih.blank hc
  | @comment body text hbody h ih =>
    have hfilter : '\n' ∉ body.filter (· ≠ '\r') := fun hmem => hbody (List.mem_of_mem_filter hmem)
    simpa using ih.comment hfilter

theorem Separator.filter (h : Separator text) : Separator (text.filter (· ≠ '\r')) := by
  cases h with
  | mk hc hreturn h => simpa [hreturn] using Separator.mk hc hreturn h.filter

private theorem Margin.filter (h : Margin text) : Margin (text.filter (· ≠ '\r')) := by
  rcases h with rfl | h
  · exact .inl rfl
  · exact .inr h.filter

/-- No token loses anything to the carriage returns that are taken out. -/
theorem Separated.filter (h : Separated values text)
    (hvalues : ∀ value ∈ values, '\r' ∉ value.toList) :
    Separated values (text.filter (· ≠ '\r')) := by
  induction h with
  | nil => exact .nil
  | single value =>
    rw [Text.filter_return_eq_self (hvalues value List.mem_cons_self)]
    exact .single value
  | cons hseparator h ih =>
    obtain ⟨hvalue, hvalues⟩ := List.forall_mem_cons.1 hvalues
    rw [List.filter_append, List.filter_append, Text.filter_return_eq_self hvalue]
    exact .cons hseparator.filter (ih hvalues)

private theorem Layout.filter (h : Layout values text)
    (hvalues : ∀ value ∈ values, '\r' ∉ value.toList) :
    Layout values (text.filter (· ≠ '\r')) := by
  cases h with
  | mk hbefore h hbehind =>
    rw [List.filter_append, List.filter_append]
    exact .mk hbefore.filter (h.filter hvalues) hbehind.filter

/-! ### Tokens apart from each other -/

/-- A token is a token wherever a blank follows, or nothing. -/
theorem ReadBefore.apart (h : ReadBefore rest token) {after : List Char}
    (hafter : ∀ c ∈ after.head?, Text.isBlank c = true) : ReadBefore after token :=
  h.before fun c hc => .inr (hafter c hc)

theorem Cut.readBefore_of_mem {position : Position} {tokens : List Token}
    {unclosed? : Option Position} (h : Cut position text tokens unclosed?) {t : Token}
    (ht : t ∈ tokens) :
    (∃ rest, ReadBefore rest t.value.toList) ∧ ∀ c ∈ t.value.toList, c ∈ text := by
  obtain ⟨ahead, rest, rfl, -, hread⟩ := h.exists_of_mem ht
  exact ⟨⟨rest, hread⟩, fun c hc => by simp [hc]⟩

/-- Tokens with separators between them can be cut again. The filling before them is what a step
has come to. -/
theorem Separated.exists_cut (h : Separated values text)
    (hvalues : ∀ value ∈ values, ∃ rest, ReadBefore rest value.toList) {before behind : List Char}
    (hbefore : Filling before) (hbehind : Margin behind) (position : Position) :
    ∃ tokens, Cut position (before ++ (text ++ behind)) tokens none ∧
      tokens.map Token.value = values := by
  induction h generalizing before position with
  | nil => exact ⟨[], .finished ((hbefore.append hbehind.filling).gap []), rfl⟩
  | single value =>
    obtain ⟨rest, hread⟩ := hvalues value List.mem_cons_self
    have hread := hread.apart hbehind.isBlank_head
    refine ⟨_, .token (hbefore.gap _) hread (.finished (hbehind.filling.gap [])), ?_⟩
    rw [List.map_cons, List.map_nil, String.ofList_toList]
  | @cons value next values separator text hseparator h ih =>
    obtain ⟨⟨rest, hread⟩, hvalues⟩ := List.forall_mem_cons.1 hvalues
    have hread := hread.apart (hseparator.isBlank_head (text ++ behind))
    obtain ⟨tokens, hcut, hmap⟩ :=
      ih hvalues hseparator.filling ((position.after before).after value.toList)
    rw [List.append_assoc, List.append_assoc]
    refine ⟨_, .token (hbefore.gap _) hread hcut, ?_⟩
    rw [List.map_cons, hmap, String.ofList_toList]

private theorem separated_intercalate (values : List String) :
    Separated values (" ".intercalate values).toList := by
  induction values with
  | nil => exact .nil
  | cons value values ih =>
    cases values with
    | nil => exact .single value
    | cons next values =>
      rw [String.intercalate_cons_cons, String.toList_append, String.toList_append,
        List.append_assoc]
      exact .cons (.mk (by decide) (by decide) .nil) ih

end Lexer

open Lexer

private theorem Lexer.Layout.exists_tokenize {values : List String} {text : String}
    (h : Layout values text.toList) (hreturn : ∀ value ∈ values, '\r' ∉ value.toList)
    (hread : ∀ value ∈ values, ∃ rest, ReadBefore rest value.toList) (file : Option String) :
    ∃ tokenized, tokenize text file = .ok tokenized ∧
      tokenized.tokens.map Token.value = values := by
  have hwithout : Layout values (Text.withoutReturns text) := h.filter hreturn
  generalize hcounted : Text.withoutReturns text = counted at hwithout
  cases hwithout with
  | mk hbefore hvalues hbehind =>
    obtain ⟨tokens, hcut, hmap⟩ := hvalues.exists_cut hread hbefore.filling hbehind {}
    exact ⟨⟨file, tokens⟩, tokenize_eq_ok_iff.2 ⟨rfl, hcounted ▸ hcut⟩, hmap⟩

/-- The tokens of a source are read again from every text that lays them out anew, as the one does
with single spaces between them. -/
theorem tokenize_layout {source : String} {file : Option String} {tokenized : Tokenized}
    (h : tokenize source file = .ok tokenized) :
    (∀ text : String, Layout (tokenized.tokens.map Token.value) text.toList →
      ∀ file', ∃ again, tokenize text file' = .ok again ∧
        again.tokens.map Token.value = tokenized.tokens.map Token.value) ∧
    Layout (tokenized.tokens.map Token.value)
      (" ".intercalate (tokenized.tokens.map Token.value)).toList := by
  obtain ⟨-, hcut⟩ := tokenize_eq_ok_iff.1 h
  refine ⟨fun text hlayout file' => hlayout.exists_tokenize ?_ ?_ file', ?_⟩
  · intro value hvalue hreturn
    obtain ⟨t, ht, rfl⟩ := List.mem_map.1 hvalue
    have hmem := (hcut.readBefore_of_mem ht).2 '\r' hreturn
    exact Text.return_notMem_withoutReturns source hmem
  · intro value hvalue
    obtain ⟨t, ht, rfl⟩ := List.mem_map.1 hvalue
    exact (hcut.readBefore_of_mem ht).1
  · have hspaces := separated_intercalate (tokenized.tokens.map Token.value)
    simpa using Layout.mk (.inl rfl) hspaces (.inl rfl)

/-- Two operators with nothing between them, laid out with a comment in front of a slash. -/
theorem tokenize_layout_slash :
    tokenize "a=/" none = .ok ⟨none, [⟨⟨0, 0⟩, "a"⟩, ⟨⟨0, 1⟩, "="⟩, ⟨⟨0, 2⟩, "/"⟩]⟩ ∧
    Layout ["a", "=", "/"] "\t\ra = //=\n/ ".toList ∧
    ∃ again, tokenize "\t\ra = //=\n/ " none = .ok again ∧
      again.tokens.map Token.value = ["a", "=", "/"] := by
  have htokens : tokenize "a=/" none =
      .ok ⟨none, [⟨⟨0, 0⟩, "a"⟩, ⟨⟨0, 1⟩, "="⟩, ⟨⟨0, 2⟩, "/"⟩]⟩ := by
    decide +kernel
  have hspace : Separator [' '] := .mk rfl (by decide) .nil
  have hcomment : Separator [' ', '/', '/', '=', '\n'] :=
    .mk rfl (by decide) (@Filling.comment ['='] [] (by decide) .nil)
  have hbefore : Margin ['\t', '\r'] := .inr (.mk rfl (by decide) (.blank rfl .nil))
  have hvalues : Separated ["a", "=", "/"]
      ("a".toList ++ ([' '] ++ ("=".toList ++ ([' ', '/', '/', '=', '\n'] ++ "/".toList)))) :=
    .cons hspace (.cons hcomment (.single "/"))
  have hlayout : Layout ["a", "=", "/"] "\t\ra = //=\n/ ".toList :=
    .mk hbefore hvalues (.inr hspace)
  exact ⟨htokens, hlayout, (tokenize_layout htokens).1 _ hlayout none⟩

end Script
