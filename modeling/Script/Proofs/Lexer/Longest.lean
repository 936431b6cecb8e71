import Script.Proofs.Lexer.Partition
/-!
# Tokens are as long as possible

A token that is no string is the longest entry of the table of operators that the source goes on
with. Where no operator begins, it is the longest run of ordinary characters: without a blank, and
with no operator beginning at any of them.
-/

namespace Script

namespace Lexer

/-- No character of the run is blank, and none of them begins an operator of the text. -/
structure Ordinary (text run : List Char) : Prop where
  isBlank : ∀ c ∈ run, Text.isBlank c = false
  no_operator : ∀ i < run.length, ¬BeginsWithOperator (text.drop i)

def GoesOnWith (source : List Char) (position : Position) (rest : List Char) : Prop :=
  ∃ ahead, source = ahead ++ rest ∧ position = .behind ahead

variable {source text run token rest other : List Char} {position : Position}

/-! ### Positions and what follows them -/

private theorem eq_nil_of_behind_eq {ahead more : List Char}
    (h : Position.behind ahead = .behind (ahead ++ more)) : more = [] := by
  by_contra hne
  have hlt := Position.lt_after (.behind ahead) hne
  rw [Position.after_behind, ← h, Position.lt_def] at hlt
  omega

private theorem GoesOnWith.unique (h : GoesOnWith source position rest)
    (h' : GoesOnWith source position other) : other = rest := by
  obtain ⟨ahead, rfl, rfl⟩ := h
  obtain ⟨ahead', htext, hposition⟩ := h'
  rcases List.append_eq_append_iff.1 htext with ⟨more, rfl, rfl⟩ | ⟨more, rfl, rfl⟩
  · rw [eq_nil_of_behind_eq hposition, List.nil_append]
  · rw [eq_nil_of_behind_eq hposition.symm, List.nil_append]

/-! ### Words -/

private theorem ordinary_iff (h : run <+: text) : Ordinary text run ↔ ∀ c ∈ run, InWord c := by
  obtain ⟨rest, rfl⟩ := h
  have hbegins : ∀ i (hi : i < run.length),
      BeginsWithOperator ((run ++ rest).drop i) ↔ isOperator [run[i]] = true := by
    intro i hi
    have hlt : i < (run ++ rest).length := by
      rw [List.length_append]
      omega
    rw [List.drop_eq_getElem_cons hlt, beginsWithOperator_cons_iff, List.getElem_append_left hi]
  constructor
  · intro hrun c hc
    obtain ⟨i, hi, rfl⟩ := List.getElem_of_mem hc
    have hno := hrun.no_operator i hi
    rw [hbegins i hi, Bool.not_eq_true] at hno
    exact ⟨hrun.isBlank _ hc, hno⟩
  · intro hrun
    refine ⟨fun c hc => (hrun c hc).isBlank, fun i hi => ?_⟩
    rw [hbegins i hi, (hrun _ (List.getElem_mem hi)).isOperator]
    exact Bool.false_ne_true

/-- A word goes on up to the first character that does not belong to it. -/
theorem longestPrefix_word (hword : ∀ c ∈ token, InWord c) (hend : ∀ c ∈ rest.head?, ¬InWord c) :
    LongestPrefix (Ordinary (token ++ rest)) (token ++ rest) token := by
  have hbegins := List.prefix_append token rest
  refine ⟨hbegins, (ordinary_iff hbegins).2 hword, fun other hother hordinary => ?_⟩
  apply Nat.le_of_not_lt
  intro hlt
  have hinWord := (ordinary_iff hother).1 hordinary
  obtain ⟨c, more, rfl, hc⟩ := exists_longer hother hlt
  exact hend c hc (hinWord c (List.mem_append_right _ List.mem_cons_self))

/-! ### Tokens -/

/-- Where an operator begins the token is the longest one, and elsewhere it is the longest run of
ordinary characters. -/
theorem ReadBefore.longest (h : ReadBefore rest token)
    (hquote : ∀ c ∈ token.head?, isQuote c = false) :
    (BeginsWithOperator (token ++ rest) →
      LongestPrefix (isOperator · = true) (token ++ rest) token) ∧
      (¬BeginsWithOperator (token ++ rest) →
        LongestPrefix (Ordinary (token ++ rest)) (token ++ rest) token) := by
  cases h with
  | @string quote body hstring hbody =>
    rw [hquote quote rfl] at hstring
    cases hstring
  | operator h hlongest hcomment =>
    have hoperator := longestPrefix_operator h hlongest
    have hbegins := beginsWithOperator_iff.2 ⟨token, h, hoperator.begins⟩
    exact ⟨fun _ => hoperator, fun hno => absurd hbegins hno⟩
  | @word c text _ hword hend =>
    have hno := (hword c List.mem_cons_self).isOperator
    refine ⟨fun hbegins => ?_, fun _ => longestPrefix_word hword hend⟩
    rw [List.cons_append, beginsWithOperator_cons_iff, hno] at hbegins
    cases hbegins

end Lexer

open Lexer

/-- Each token of a source that is no string is the longest operator of the table that the source
goes on with from there, or, where none begins, the longest text without a blank in it and without
a character at which an operator begins. And what is read as an operator is on every text the
longest entry of the table that the text begins with, and nothing exactly if there is none. -/
theorem tokenize_longest (source : String) (file : Option String) :
    (∀ tokenized, tokenize source file = .ok tokenized → ∀ t ∈ tokenized.tokens,
      ∃ rest, GoesOnWith (Text.withoutReturns source) t.position rest ∧
        (∀ other, GoesOnWith (Text.withoutReturns source) t.position other → other = rest) ∧
        t.value.toList <+: rest ∧
        ((∀ c ∈ t.value.toList.head?, isQuote c = false) →
          (BeginsWithOperator rest → LongestPrefix (isOperator · = true) rest t.value.toList) ∧
            (¬BeginsWithOperator rest → LongestPrefix (Ordinary rest) rest t.value.toList))) ∧
      ∀ text : List Char,
        (operatorLength? text = none ↔ ¬BeginsWithOperator text) ∧
          ∀ n, operatorLength? text = some n ↔ ∃ operator, operator.length = n ∧
            LongestPrefix (isOperator · = true) text operator := by
  refine ⟨fun tokenized h t ht => ?_, fun text => ⟨operatorLength?_eq_none_iff, fun n => ?_⟩⟩
  · obtain ⟨ahead, rest, htext, hposition, hread⟩ := exists_readBefore h ht
    have hgoesOn : GoesOnWith (Text.withoutReturns source) t.position (t.value.toList ++ rest) :=
      ⟨ahead, htext, hposition⟩
    exact ⟨_, hgoesOn, fun other hother => hgoesOn.unique hother, List.prefix_append _ _,
      hread.longest⟩
  · exact operatorLength?_eq_some_iff

/-- An operator that a longer one could follow, and a word with quotes in it in front of a slash. -/
theorem tokenize_longest_touching :
    let tokens : List Token := [⟨⟨0, 0⟩, "x"⟩, ⟨⟨0, 1⟩, "[]"⟩, ⟨⟨0, 3⟩, "<="⟩, ⟨⟨0, 5⟩, "="⟩,
      ⟨⟨0, 6⟩, "b\"c\""⟩, ⟨⟨0, 10⟩, "/"⟩, ⟨⟨0, 11⟩, "'d'"⟩]
    tokenize "x[]<==b\"c\"/'d'" none = .ok ⟨none, tokens⟩ ∧
      LongestPrefix (isOperator · = true) "<==b\"c\"/'d'".toList "<=".toList ∧
      LongestPrefix (Ordinary "b\"c\"/'d'".toList) "b\"c\"/'d'".toList "b\"c\"".toList := by
  intro tokens
  have htokens : tokenize "x[]<==b\"c\"/'d'" none = .ok ⟨none, tokens⟩ := by decide +kernel
  obtain ⟨hlongest, -⟩ := tokenize_longest "x[]<==b\"c\"/'d'" none
  refine ⟨htokens, ?_, ?_⟩
  · obtain ⟨rest, -, hunique, -, hrest⟩ :=
      hlongest _ htokens ⟨⟨0, 3⟩, "<="⟩ (by simp [tokens])
    obtain rfl := hunique "<==b\"c\"/'d'".toList ⟨"x[]".toList, by decide +kernel, by decide⟩
    have hquote : ∀ c ∈ "<=".toList.head?, isQuote c = false := by
      intro c hc
      obtain rfl : '<' = c := Option.some.inj hc
      rfl
    exact (hrest hquote).1 ⟨"<", by decide, by decide⟩
  · obtain ⟨rest, -, hunique, -, hrest⟩ :=
      hlongest _ htokens ⟨⟨0, 6⟩, "b\"c\""⟩ (by simp [tokens])
    obtain rfl := hunique "b\"c\"/'d'".toList ⟨"x[]<==".toList, by decide +kernel, by decide⟩
    have hquote : ∀ c ∈ "b\"c\"".toList.head?, isQuote c = false := by
      intro c hc
      obtain rfl : 'b' = c := Option.some.inj hc
      rfl
    refine (hrest hquote).2 fun hbegins => ?_
    have hb : isOperator ['b'] = true := beginsWithOperator_cons_iff.1 hbegins
    exact absurd hb (by decide)

end Script
