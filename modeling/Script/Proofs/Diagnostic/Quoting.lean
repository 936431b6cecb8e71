import Script.Proofs.Lexer.Layout
import Script.Proofs.Parser.Expectations
import Script.Proofs.Recovery.Pointing
/-!
# What messages quote

The wording of an error that quotes a text is a frame around this text and the position. The
position is filled in when the text stands in its place already, so a text with the placeholder in
it is not told as it is: there the position comes in as well. A token has room for the placeholder
only if it is a string.
-/

namespace Script

namespace Diagnostic

theorem toList_fillIn (text : String) (position : Position) :
    (fillIn text position).toList =
      Text.replaceFrom placeholder.toList position.describe.toList 0 text.toList :=
  String.toList_ofList

theorem placeholder_eq : placeholder.toList = '\x7b' :: "position\x7d".toList := by decide

private theorem placeholder_ne_nil : placeholder.toList ≠ [] := by
  rw [placeholder_eq]
  exact List.cons_ne_nil _ _

private theorem replaceFrom_placeholder {text : List Char} (h : '\x7b' ∉ text)
    (replacement more : List Char) :
    Text.replaceFrom placeholder.toList replacement 0 (text ++ more) =
      text ++ Text.replaceFrom placeholder.toList replacement 0 more := by
  rw [placeholder_eq]
  exact Text.replaceFrom_append_of_notMem h _ replacement more

/-- Where the position is filled in, the placeholder is left nowhere. -/
theorem not_infix_fillIn (text : String) (position : Position) :
    ¬placeholder.toList <:+: (fillIn text position).toList := by
  obtain ⟨words, hwords⟩ := position.exists_describe
  have hbrace := position.notMem_describe (by decide : '\x7b'.isDigit = false) (by decide)
  rw [hwords, List.mem_cons, not_or] at hbrace
  rw [toList_fillIn, placeholder_eq, hwords]
  exact Text.not_infix_replaceFrom hbrace.2 (by decide) text.toList

private theorem fillIn_eq_self_iff (text : String) (position : Position) :
    fillIn text position = text ↔ ¬placeholder.toList <:+: text.toList := by
  constructor
  · intro hself
    have hnone := not_infix_fillIn text position
    rwa [hself] at hnone
  · intro hnone
    rw [← String.toList_inj, toList_fillIn, Text.replaceFrom_eq_self _ hnone]

/-- A wording around a text and a position. The placeholder is no part of it, nor does it reach from
the text into it. -/
structure Frame where
  before : String
  /-- What stands between the text and the position. -/
  between : String
  after : String := ""
  notMem_before : '\x7b' ∉ before.toList := by decide
  head_between : between.toList.head?.any (· ∉ placeholder.toList) = true := by decide
  notMem_between : '\x7b' ∉ between.toList := by decide
  notMem_after : '\x7b' ∉ after.toList := by decide

namespace Frame

def fill (frame : Frame) (text position : String) : String :=
  frame.before ++ text ++ (frame.between ++ (position ++ frame.after))

variable (frame : Frame)

theorem toList_fill (text position : String) :
    (frame.fill text position).toList = frame.before.toList ++
      (text.toList ++ (frame.between.toList ++ (position.toList ++ frame.after.toList))) := by
  simp only [fill, String.toList_append, List.append_assoc]

private theorem fill_inj {text other position : String} :
    frame.fill text position = frame.fill other position ↔ text = other := by
  simp only [fill, String.append_left_inj, String.append_right_inj]

/-- The placeholder does not reach from the text into what stands between. -/
theorem exists_between :
    ∃ c rest, frame.between.toList = c :: rest ∧ c ∉ placeholder.toList ∧ '\x7b' ∉ rest := by
  have hhead := frame.head_between
  have hnotMem := frame.notMem_between
  cases hbetween : frame.between.toList with
  | nil =>
    rw [hbetween] at hhead
    cases hhead
  | cons c rest =>
    rw [hbetween] at hhead hnotMem
    rw [List.mem_cons, not_or] at hnotMem
    exact ⟨c, rest, rfl, of_decide_eq_true hhead, hnotMem.2⟩

/-- The position comes into the text and into its own place, and nowhere else. -/
theorem fillIn_fill (text : String) (position : Position) :
    fillIn (frame.fill text placeholder) position =
      frame.fill (fillIn text position) position.describe := by
  obtain ⟨c, rest, hbetween, hc, hrest⟩ := frame.exists_between
  have hafter : Text.replaceFrom placeholder.toList position.describe.toList 0
      frame.after.toList = frame.after.toList := by
    simpa [Text.replaceFrom] using
      replaceFrom_placeholder frame.notMem_after position.describe.toList []
  rw [← String.toList_inj, toList_fillIn, toList_fill, toList_fill, toList_fillIn, hbetween,
    replaceFrom_placeholder frame.notMem_before, List.cons_append, List.cons_append,
    Text.replaceFrom_append_cons placeholder_ne_nil hc, replaceFrom_placeholder hrest,
    Text.replaceFrom_append _ _ placeholder_ne_nil, hafter]

end Frame

end Diagnostic

open Script.Parser Diagnostic Lexer

theorem IdentifierFault.notMem_message (fault : IdentifierFault) :
    '\x7b' ∉ (": " ++ fault.message).toList := by
  have hmessage : '\x7b' ∉ fault.message.toList := by
    cases fault <;> decide
  rw [String.toList_append, List.mem_append, not_or]
  exact ⟨by decide, hmessage⟩

def SyntaxError.frame? : SyntaxError → Option Frame
  | .unexpectedKeyword _ => some { before := "Unexpected keyword '", between := "' at " }
  | .expected _ => some { before := "Expected ", between := " at " }
  | .invalidIdentifier _ fault =>
    some
      { before := "Invalid identifier '"
        between := "' at "
        after := ": " ++ fault.message
        notMem_after := fault.notMem_message }
  | .unknownLiteral _ =>
    some { before := "Could not determine literal type of '", between := "' at " }
  | .invalidNumber _ => some { before := "Invalid number '", between := "' at " }
  | .unsupportedStatement _ =>
    some { before := "'", between := "' statements are not supported yet at " }
  | .unexpectedToken _ => some { before := "Unexpected token '", between := "' at " }
  | .constantFunction | .uninitializedConstant | .unexpectedEnd | .notAnExpression => none

/-- A kind of error that quotes a text is told by its frame around the text. -/
theorem SyntaxError.exists_frame {kind : SyntaxError} {text : String}
    (h : kind.text? = some text) :
    ∃ frame, kind.frame? = some frame ∧ kind.wording = frame.fill text placeholder := by
  cases kind with
  | unexpectedKeyword word | unknownLiteral word | invalidNumber word | unexpectedToken word =>
    cases h
    have hending : "' at " ++ (placeholder ++ "") = "' at {position}" := by decide
    refine ⟨_, rfl, ?_⟩
    rw [Frame.fill, hending]
    rfl
  | expected what =>
    cases h
    have hending : " at " ++ (placeholder ++ "") = " at {position}" := by decide
    refine ⟨_, rfl, ?_⟩
    rw [Frame.fill, hending]
    rfl
  | unsupportedStatement word =>
    cases h
    have hending : "' statements are not supported yet at " ++ (placeholder ++ "") =
        "' statements are not supported yet at {position}" := by decide
    refine ⟨_, rfl, ?_⟩
    rw [Frame.fill, hending]
    rfl
  | invalidIdentifier word fault =>
    cases h
    have hending : "' at " ++ (placeholder ++ ": ") = "' at {position}: " := by decide
    have hmessage : "' at " ++ (placeholder ++ (": " ++ fault.message)) =
        "' at {position}: " ++ fault.message := by
      rw [← hending, String.append_assoc, String.append_assoc]
    refine ⟨_, rfl, ?_⟩
    rw [Frame.fill, hmessage, ← String.append_assoc]
    rfl
  | _ => cases h

private theorem Lexer.ReadBefore.exists_quote {rest text : List Char} (h : ReadBefore rest text)
    (hplaceholder : placeholder.toList <:+: text) :
    ∃ quote body, text = quote :: body ∧ isQuote quote = true := by
  cases h with
  | @string quote body hquote _ => exact ⟨quote, body, rfl, hquote⟩
  | operator hoperator _ _ =>
    have hlength := hplaceholder.length_le
    have hplaceholder : placeholder.toList.length = 10 := by decide
    rcases length_of_isOperator hoperator with hone | htwo <;> omega
  | word _ hword _ =>
    have hbrace : '\x7b' ∈ placeholder.toList := by decide
    have hinWord := hword _ (hplaceholder.subset hbrace)
    exact absurd hinWord (not_inWord_of_isOperator (by decide))

/-- However an error came about, its message is its frame around the text, with the position in the
place of the frame and in every place of the text that has the placeholder. -/
theorem Diagnostic.exists_message (error : Diagnostic SyntaxError) {text : String}
    (h : error.kind.text? = some text) :
    ∃ frame, error.kind.frame? = some frame ∧
      Worded.wording error.kind = frame.fill text placeholder ∧
      error.message = frame.fill (fillIn text error.position) error.position.describe ∧
      (error.message = frame.fill text error.position.describe ↔
        ¬placeholder.toList <:+: text.toList) ∧
      (text.toList <:+: error.message.toList ↔ ¬placeholder.toList <:+: text.toList) := by
  obtain ⟨frame, hframe, hwording⟩ := SyntaxError.exists_frame h
  have hmessage : error.message =
      frame.fill (fillIn text error.position) error.position.describe := by
    rw [← frame.fillIn_fill, ← hwording]
    rfl
  have hverbatim : error.message = frame.fill text error.position.describe ↔
      ¬placeholder.toList <:+: text.toList := by
    rw [hmessage, frame.fill_inj, fillIn_eq_self_iff]
  refine ⟨frame, hframe, hwording, hmessage, hverbatim, fun hinfix hplaceholder => ?_, ?_⟩
  · exact not_infix_fillIn _ _ (hplaceholder.trans hinfix)
  · intro hnone
    rw [hverbatim.2 hnone, frame.toList_fill]
    exact ⟨frame.before.toList, _, List.append_assoc ..⟩

private theorem SyntaxError.not_infix_of_mem_dues {what : String} (h : what ∈ dues) :
    ¬placeholder.toList <:+: what.toList := by
  have hletter : ∀ due ∈ dues, 'p' ∉ due.toList := by decide
  exact fun hplaceholder => hletter what h (hplaceholder.subset (by decide))

/-- A text that an error has is either what was expected or the text of the wrong token. -/
theorem SyntaxError.expected_or_quoted {kind : SyntaxError} {text : String}
    (h : kind.text? = some text) : kind = .expected text ∨ kind.quoted? = some text := by
  cases kind with
  | expected what =>
    cases h
    exact .inl rfl
  | _ => exact .inr h

/-- Every error of the parser that has a text in its message has it in the frame of its kind. The
text is what was expected, or that of the token that the error points at. It is told as it is, so
that the message contains it, exactly if it does not have the placeholder; and it has the
placeholder only if the token is a string. -/
theorem Settings.messages_quote (file label : Option String) (recover verbose : Bool)
    {source text : String} {tokenized : Tokenized} {error : Diagnostic SyntaxError}
    (htokens : tokenize source label = .ok tokenized)
    (h : Reports { file, recover, verbose } tokenized.tokens source error)
    (htext : error.kind.text? = some text) :
    (∃ frame, error.kind.frame? = some frame ∧
      Worded.wording error.kind = frame.fill text placeholder ∧
      error.message = frame.fill (fillIn text error.position) error.position.describe ∧
      (error.message = frame.fill text error.position.describe ↔
        ¬placeholder.toList <:+: text.toList) ∧
      (text.toList <:+: error.message.toList ↔ ¬placeholder.toList <:+: text.toList)) ∧
    (error.kind = .expected text ∧ text ∈ SyntaxError.dues ∨
      ∃ t ∈ tokenized.tokens, t.position = error.position ∧ t.value = text) ∧
    (placeholder.toList <:+: text.toList →
      ∃ quote body, text.toList = quote :: body ∧ isQuote quote = true) := by
  obtain ⟨fault, hfault, rfl⟩ := h.exists_fault
  obtain ⟨c, hc, hne, hrun⟩ := (readsTo_readFrom _ _ _).exists_run .start hfault
  obtain ⟨s, -, rfl⟩ := hc.exists_behind
  have hs : s < tokenized.tokens.length := Nat.lt_of_not_le (mt List.drop_eq_nil_iff.2 hne)
  refine ⟨exists_message _ htext, ?_⟩
  rcases SyntaxError.expected_or_quoted htext with hexpected | hquoted
  · have hdue : text ∈ SyntaxError.dues := by
      have hkind := raises_element_defaults _ fault hrun
      rwa [show fault.kind = .expected text from hexpected] at hkind
    refine ⟨.inl ⟨hexpected, hdue⟩, ?_⟩
    exact fun hplaceholder => absurd hplaceholder (SyntaxError.not_infix_of_mem_dues hdue)
  · have hpoints : PointsFrom tokenized.tokens s
        (diagnose { file, recover, verbose } source fault) :=
      pointsFrom_of_run hs hrun rfl rfl
    cases hpoints with
    | @token i t _ ht hposition hvalue =>
      obtain rfl := hvalue text hquoted
      have hmem := List.mem_of_getElem? ht
      refine ⟨.inr ⟨t, hmem, hposition.symm, rfl⟩, fun hplaceholder => ?_⟩
      obtain ⟨⟨_, hread⟩, -⟩ := (tokenize_eq_ok_iff.1 htokens).2.readBefore_of_mem hmem
      exact hread.exists_quote hplaceholder
    | exhausted _ _ _ hnone =>
      rw [hnone] at hquoted
      cases hquoted

/-- A name that is none, with a part of the placeholder in it, is told as it is. -/
theorem Settings.messages_quote_part :
    let source := "\"\x7bposition\" y;"
    let text := "\"\x7bposition\""
    ∃ tokenized error, tokenize source none = .ok tokenized ∧
      Reports {} tokenized.tokens source error ∧
      error.kind = .invalidIdentifier text .invalidCharacters ∧
      text.toList <:+: error.message.toList := by
  intro source text
  let tokens : List Token := [⟨⟨0, 0⟩, text⟩, ⟨⟨0, 12⟩, "y"⟩, ⟨⟨0, 13⟩, ";"⟩]
  have htokens : tokenize source none = .ok ⟨none, tokens⟩ := by decide +kernel
  have hfatal : (readProgram Rule.defaults false tokens).fatal? =
      some ⟨.invalidIdentifier text .invalidCharacters, ⟨0, 0⟩, none⟩ := by
    decide +kernel
  have hreports : Reports {} tokens source _ := .inl (parse_eq_error_iff.2 ⟨_, hfatal, rfl⟩)
  obtain ⟨⟨frame, -, -, -, -, hinfix⟩, -, -⟩ :=
    messages_quote none none false false htokens hreports rfl
  refine ⟨_, _, htokens, hreports, rfl, hinfix.2 fun hplaceholder => ?_⟩
  have hbrace : '\x7d' ∈ text.toList := hplaceholder.subset (by decide)
  exact absurd hbrace (by decide)

/-- A string that is spelled like the placeholder is told as a position. -/
theorem Settings.message_of_placeholder :
    let source := "\"{position}\";"
    let text := "\"{position}\""
    let tokens : List Token := [⟨⟨0, 0⟩, text⟩, ⟨⟨0, 12⟩, ";"⟩]
    let error : Diagnostic SyntaxError := ⟨.unexpectedToken text, ⟨0, 0⟩, source, none⟩
    tokenize source none = .ok ⟨none, tokens⟩ ∧ Settings.parse {} tokens source = .error error ∧
      error.message = "Unexpected token '\"line 0, column 0\"' at line 0, column 0" ∧
      ¬text.toList <:+: error.message.toList := by
  intro source text tokens error
  have hfatal : (readProgram Rule.defaults false tokens).fatal? =
      some ⟨.unexpectedToken text, ⟨0, 0⟩, none⟩ := by
    decide +kernel
  have hsource : String.ofList (Text.withoutReturns source) = source := by decide +kernel
  refine ⟨by decide +kernel, parse_eq_error_iff.2 ⟨_, hfatal, ?_⟩, by decide +kernel, ?_⟩
  · rw [diagnose_of_origin _ _ rfl, hsource]
  · have hplaceholder : placeholder.toList <:+: text.toList := ⟨['"'], ['"'], by decide⟩
    exact fun hinfix => not_infix_fillIn _ _ (hplaceholder.trans hinfix)

end Script
