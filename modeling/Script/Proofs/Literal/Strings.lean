import Script.Proofs.Lexer.Layout
import Script.Proofs.Lexer.Unclosed
import Script.Proofs.Writing.Literals
/-!
# Strings

The lexer and the reader of literals take escapes alike: what the lexer takes for the closing quote
is what the reader strips, and what stands before it is made of whole escapes. So every text can be
spelled as a string, with either quote, and every string that is cut from a source spells a text.
-/

namespace Script.Literal

open Lexer

variable {quote : Char} {text chars : List Char}

/-! ### What a text between quotes stands for -/

def namedEscapes : List (Char × Char) := [('n', '\n'), ('t', '\t'), ('r', '\r'), ('0', '\x00')]

/-- The text between quotes, made of whole escapes and of characters that stand for themselves. -/
inductive StandsFor : List Char → List Char → Prop
  | nil : StandsFor [] []
  | plain {c : Char} {text chars : List Char} (hc : c ≠ '\\') (h : StandsFor text chars) :
      StandsFor (c :: text) (c :: chars)
  | named {name c : Char} {text chars : List Char} (hname : (name, c) ∈ namedEscapes)
      (h : StandsFor text chars) : StandsFor ('\\' :: name :: text) (c :: chars)
  | escape {c : Char} {text chars : List Char} (hc : ∀ d, (c, d) ∉ namedEscapes)
      (h : StandsFor text chars) : StandsFor ('\\' :: c :: text) (c :: chars)

private theorem unescape_named {name c : Char} (h : (name, c) ∈ namedEscapes) (text : List Char) :
    unescape ('\\' :: name :: text) = c :: unescape text := by
  simp only [namedEscapes, List.mem_cons, Prod.mk.injEq, List.not_mem_nil, or_false] at h
  rcases h with ⟨rfl, rfl⟩ | ⟨rfl, rfl⟩ | ⟨rfl, rfl⟩ | ⟨rfl, rfl⟩
  · rfl
  · rfl
  · rfl
  · rfl

private theorem unescape_escape {c : Char} (h : ∀ d, (c, d) ∉ namedEscapes) (text : List Char) :
    unescape ('\\' :: c :: text) = c :: unescape text := by
  have hne : ∀ name d, (name, d) ∈ namedEscapes → c ≠ name := by
    rintro name d hname rfl
    exact h d hname
  simp [unescape, hne 'n' '\n' (by decide), hne 't' '\t' (by decide), hne 'r' '\r' (by decide),
    hne '0' '\x00' (by decide)]

/-- A text that does not end inside an escape stands for what its escapes are resolved to. -/
theorem standsFor_unescape (h : takesAlong text = false) : StandsFor text (unescape text) := by
  induction text using unescape.induct with
  | case1 => exact .nil
  | case2 => cases h
  | case3 c text ih =>
    rw [takesAlong_backslash] at h
    by_cases hnamed : ∃ d, (c, d) ∈ namedEscapes
    · obtain ⟨d, hd⟩ := hnamed
      rw [unescape_named hd]
      exact .named hd (ih h)
    · rw [not_exists] at hnamed
      rw [unescape_escape hnamed]
      exact .escape hnamed (ih h)
  | case4 c text hlone hslash ih =>
    have hc : c ≠ '\\' := by
      rintro rfl
      cases text with
      | nil => exact hlone rfl rfl
      | cons d text => exact hslash d text rfl rfl
    rw [takesAlong_other hc] at h
    rw [unescape_other hc]
    exact .plain hc (ih h)

/-! ### Reading strings -/

theorem ofToken_of_quote (token : Token) (hq : isQuote quote = true)
    (h : token.value.toList = quote :: text) :
    ofToken token =
      .ok ⟨.string, String.ofList (unescape (unquote quote text)), token.position⟩ := by
  rw [ofToken, read_of_quote hq h]

private theorem ofToken_escaped (hq : isQuote quote = true) (text : String) (file : Option String) :
    let source := String.ofList (quote :: (text.toList.flatMap (Style.escaped quote) ++ [quote]))
    tokenize source file = .ok ⟨file, [⟨{}, source⟩]⟩ ∧
      ofToken ⟨{}, source⟩ = .ok ⟨.string, text, {}⟩ := by
  intro source
  constructor
  · have hread : ReadBefore [] (quote :: _) := .string hq (closes_escaped hq text.toList)
    exact hread.tokenize_eq (Style.return_notMem_quoted hq text.toList) file
  · rw [ofToken_of_quote ⟨{}, source⟩ hq String.toList_ofList, unquote_append, unescape_escaped hq,
      String.ofList_toList]

/-- Every text can be spelled with either quote: the source with the escapes that it needs is one
token, and this is read as a string with the text. And every string that a lexer gives, whatever
the source, is read: what is stripped from it are the opening quote and the closing one, the only
other that no backslash takes along, and what is left are whole escapes and other characters. -/
theorem strings_spell_texts (quote : Char) (hq : isQuote quote = true) (file : Option String) :
    (∀ text : String,
      let source := String.ofList (quote :: (text.toList.flatMap (Style.escaped quote) ++ [quote]))
      tokenize source file = .ok ⟨file, [⟨{}, source⟩]⟩ ∧
        ofToken ⟨{}, source⟩ = .ok ⟨.string, text, {}⟩) ∧
      ∀ source n token, (Lexer.ofSource source file).results n = some (.ok token) →
        token.value.toList.head? = some quote →
          ∃ inner text, token.value.toList = quote :: (inner ++ [quote]) ∧
            unquote quote (inner ++ [quote]) = inner ∧ takesAlong inner = false ∧
            (∀ before after, inner = before ++ quote :: after → takesAlong before = true) ∧
            StandsFor inner text ∧
            ofToken token = .ok ⟨.string, String.ofList text, token.position⟩ := by
  refine ⟨fun text => ofToken_escaped hq text file, fun source n token hresult hhead => ?_⟩
  obtain ⟨tokens, unclosed?, hcut⟩ := exists_cut {} (Text.withoutReturns source)
  obtain ⟨body, hvalue⟩ := List.head?_eq_some_iff.1 hhead
  obtain ⟨⟨rest, hread⟩, -⟩ := hcut.readBefore_of_mem (hcut.mem_of_results rfl hresult)
  rw [hvalue] at hread
  have hcloses := hread.closes hq
  obtain ⟨inner, rfl, -, htaken⟩ := hcloses.exists_front
  refine ⟨inner, unescape inner, hvalue, unquote_append quote inner, htaken, ?_,
    standsFor_unescape htaken, ?_⟩
  · rintro before after rfl
    have hbehind : after ++ [quote] ≠ [] := List.append_ne_nil_of_right_ne_nil _ (by simp)
    exact hcloses.takesAlong_of_append hq (List.append_assoc before (quote :: after) _) hbehind
  · rw [ofToken_of_quote token hq hvalue, unquote_append]

/-- A text of characters that all have to be escaped, and a string in front of another one that is
not closed. -/
theorem strings_spell_texts_unclosed :
    let source := "\"\\\\\\\"\\n\\r\""
    let token : Token := ⟨⟨0, 4⟩, "\"a\\\"b\\\\\""⟩
    Lexer.isQuote '"' = true ∧
      tokenize source none = .ok ⟨none, [⟨{}, source⟩]⟩ ∧
      ofToken ⟨{}, source⟩ = .ok ⟨.string, "\\\"\n\r", {}⟩ ∧
      (Lexer.ofSource "x = \"a\\\"b\\\\\" 'c" none).results 2 = some (.ok token) ∧
      token.value.toList.head? = some '"' ∧
      ∃ inner text, token.value.toList = '"' :: (inner ++ ['"']) ∧ takesAlong inner = false ∧
        StandsFor inner text ∧ ofToken token = .ok ⟨.string, String.ofList text, ⟨0, 4⟩⟩ := by
  intro source token
  have hq : Lexer.isQuote '"' = true := rfl
  have hresult : (Lexer.ofSource "x = \"a\\\"b\\\\\" 'c" none).results 2 = some (.ok token) := by
    decide +kernel
  have hhead : token.value.toList.head? = some '"' := by decide +kernel
  obtain ⟨hspelled, hread⟩ := strings_spell_texts '"' hq none
  obtain ⟨htokens, htoken⟩ := hspelled "\\\"\n\r"
  obtain ⟨inner, text, hvalue, -, htaken, -, hstands, hof⟩ := hread _ 2 token hresult hhead
  have hsource : String.ofList ('"' :: ("\\\"\n\r".toList.flatMap (Style.escaped '"') ++ ['"'])) =
      source := by
    decide +kernel
  simp only [hsource] at htokens htoken
  exact ⟨hq, htokens, htoken, hresult, hhead, inner, text, hvalue, htaken, hstands, hof⟩

end Script.Literal
