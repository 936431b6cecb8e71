import Script.Proofs.Diagnostic.Lines
/-!
# The colours of an excerpt

An excerpt in colours is the plain one with colour codes in it. The codes stand in pairs around
pieces of single lines, and without them the plain excerpt is left.
-/

namespace Script.Diagnostic

/-! ### Coloured texts -/

def colourNumbers : List String := ["90", "31", "33"]

/-- A coloured text, and the same text without colours. The code that ends a colour stands on the
line of the one that began it, and there is something between them. -/
inductive Painted : List Char → List Char → Prop
  | nil : Painted [] []
  | bare {c : Char} {coloured plain : List Char} (hc : c ≠ '\x1b')
      (h : Painted coloured plain) : Painted (c :: coloured) (c :: plain)
  | span {code : String} {text coloured plain : List Char} (hcode : code ∈ colourNumbers)
      (hne : text ≠ []) (hescape : '\x1b' ∉ text) (hline : '\n' ∉ text)
      (h : Painted coloured plain) :
      Painted (colourCode code ++ text ++ colourCode "39" ++ coloured) (text ++ plain)

def withoutColours (text : String) : String :=
  (colourNumbers ++ ["39"]).foldl
    (fun text code => Text.replaceAll (String.ofList (colourCode code)) "" text) text

private theorem Painted.append {s s' t t' : List Char} (h : Painted s t) (h' : Painted s' t') :
    Painted (s ++ s') (t ++ t') := by
  induction h with
  | nil => exact h'
  | bare hc _ ih => exact .bare hc ih
  | span hcode hne hescape hline _ ih =>
    rw [List.append_assoc, List.append_assoc (_ : List Char) _ t']
    exact .span hcode hne hescape hline ih

private theorem painted_self {text : List Char} (h : '\x1b' ∉ text) : Painted text text := by
  induction text with
  | nil => exact .nil
  | cons c text ih =>
    rw [List.mem_cons, not_or] at h
    exact .bare (Ne.symm h.1) (ih h.2)

theorem Painted.flatMap {α : Type} {f g : α → List Char} {l : List α}
    (h : ∀ a ∈ l, Painted (f a) (g a)) : Painted (l.flatMap f) (l.flatMap g) := by
  induction l with
  | nil => exact .nil
  | cons a l ih =>
    rw [List.forall_mem_cons] at h
    rw [List.flatMap_cons, List.flatMap_cons]
    exact h.1.append (ih h.2)

/-! ### Painting rows -/

private theorem mem_colourNumbers {paint : Paint} {code : String} (h : paint.code? = some code) :
    code ∈ colourNumbers ∧ paint ≠ .normal := by
  cases paint with
  | normal => cases h
  | dim =>
    obtain rfl := Option.some.inj h
    decide
  | highlight =>
    obtain rfl := Option.some.inj h
    decide
  | caret =>
    obtain rfl := Option.some.inj h
    decide

private theorem painted_segment {segment : Segment} (hescape : '\x1b' ∉ segment.text)
    (hline : segment.paint ≠ .normal → '\n' ∉ segment.text) :
    Painted (segment.write true) (segment.write false) := by
  rw [Segment.write_false]
  unfold Segment.write
  split
  · exact painted_self hescape
  · next code hcode =>
    obtain ⟨hmem, hpaint⟩ := mem_colourNumbers hcode
    by_cases hempty : segment.text = []
    · rw [hempty]
      exact .nil
    · have hspan := Painted.span hmem hempty hescape (hline hpaint) .nil
      simpa [hempty] using hspan

private theorem Row.exists_of_mem_cut {n : Nat} {row : Row} {segment : Segment}
    (h : segment ∈ row.cut n) :
    ∃ whole ∈ row, segment.paint = whole.paint ∧ ∀ c ∈ segment.text, c ∈ whole.text := by
  induction row generalizing n with
  | nil => cases h
  | cons first row ih =>
    rcases List.mem_cons.1 h with rfl | h
    · exact ⟨first, List.mem_cons_self, rfl, fun _ => List.mem_of_mem_take⟩
    · obtain ⟨whole, hwhole, hsame⟩ := ih h
      exact ⟨whole, List.mem_cons_of_mem first hwhole, hsame⟩

theorem Row.mem_text {row : Row} {segment : Segment} (h : segment ∈ row) {c : Char}
    (hc : c ∈ segment.text) : c ∈ row.text :=
  List.mem_flatMap.2 ⟨segment, h, hc⟩

private theorem painted_row {row : Row} (hescape : '\x1b' ∉ row.text)
    (hline : ∀ segment ∈ row, segment.paint ≠ .normal → '\n' ∉ segment.text) :
    Painted (row.write true) (row.write false) := by
  unfold Row.write
  apply Painted.flatMap
  intro segment hsegment
  obtain ⟨whole, hwhole, hpaint, hmem⟩ := Row.exists_of_mem_cut hsegment
  apply painted_segment
  · exact fun h => hescape (Row.mem_text hwhole (hmem _ h))
  · rw [hpaint]
    exact fun hnormal h => hline whole hwhole hnormal (hmem _ h)

private theorem escape_notMem_lines_shownSource (source : String) :
    ∀ text ∈ Text.lines (shownSource source), '\x1b' ∉ text := by
  rw [lines_shownSource, List.forall_mem_map]
  intro line _ hmem
  obtain ⟨c, -, hc⟩ := List.mem_map.1 hmem
  split at hc
  · cases hc
  · next hne => exact hne hc

private theorem painted_rows {message source : String} (hmessage : '\x1b' ∉ message.toList)
    {position : Position} {row : Row} (h : row ∈ rows message source position) :
    Painted (row.write true) (row.write false) := by
  apply painted_row
  · exact notMem_of_mem_rows (by decide) hmessage (escape_notMem_lines_shownSource source) h
  · intro segment hsegment hpaint
    rcases List.mem_cons.1 h with rfl | htail
    · -- The message may have several lines, but it has no colour.
      obtain rfl := List.mem_singleton.1 hsegment
      exact absurd rfl hpaint
    · have hline := notMem_of_mem_tail_rows (by decide) message
        (newline_notMem_lines_shownSource source) htail
      exact fun hmem => hline (Row.mem_text hsegment hmem)

private theorem painted_excerpt {message : String} (hmessage : '\x1b' ∉ message.toList)
    (source : String) (position : Position) (terminal : Bool) :
    Painted (excerpt message source position .ansi terminal).toList
      (excerpt message source position .plain terminal).toList := by
  unfold excerpt Text.block
  rw [String.toList_ofList, String.toList_ofList, List.flatMap_map, List.flatMap_map]
  apply Painted.flatMap
  intro row hrow
  exact .bare (by decide) (painted_rows hmessage hrow)

/-! ### Deleting codes -/

/-- A text with some codes put in anywhere, and the text without them. -/
inductive WithCodes (codes : List String) : List Char → List Char → Prop
  | nil : WithCodes codes [] []
  | bare {c : Char} {coloured plain : List Char} (hc : c ≠ '\x1b')
      (h : WithCodes codes coloured plain) : WithCodes codes (c :: coloured) (c :: plain)
  | code {code : String} {coloured plain : List Char} (hcode : code ∈ codes)
      (h : WithCodes codes coloured plain) : WithCodes codes (colourCode code ++ coloured) plain

private theorem WithCodes.append_left {codes : List String} {text coloured plain : List Char}
    (htext : '\x1b' ∉ text) (h : WithCodes codes coloured plain) :
    WithCodes codes (text ++ coloured) (text ++ plain) := by
  induction text with
  | nil => exact h
  | cons c text ih =>
    rw [List.mem_cons, not_or] at htext
    exact .bare (Ne.symm htext.1) (ih htext.2)

private theorem Painted.withCodes {coloured plain : List Char} (h : Painted coloured plain) :
    WithCodes (colourNumbers ++ ["39"]) coloured plain := by
  induction h with
  | nil => exact .nil
  | bare hc _ ih => exact .bare hc ih
  | span hcode hne hescape hline _ ih =>
    rw [List.append_assoc, List.append_assoc]
    apply WithCodes.code (List.mem_append_left _ hcode)
    apply WithCodes.append_left hescape
    exact .code (List.mem_append_right _ List.mem_cons_self) ih

private theorem eq_of_withCodes_nil {text plain : List Char} (h : WithCodes [] text plain) :
    text = plain := by
  induction h with
  | nil => rfl
  | bare _ _ ih => rw [ih]
  | code hcode => cases hcode

private theorem eq_of_prefix_colourCode {code other : String} (hlength : code.length = other.length)
    {text : List Char} (h : colourCode code <+: colourCode other ++ text) : code = other := by
  rw [← String.length_toList, ← String.length_toList] at hlength
  have hcodes : (colourCode code).length = (colourCode other).length := by
    simp [colourCode, hlength]
  have hprefix := List.prefix_of_prefix_length_le h (List.prefix_append _ text)
    (Nat.le_of_eq hcodes)
  have heq := hprefix.eq_of_length hcodes
  have htail := (List.cons.inj (List.cons.inj heq).2).2
  exact String.toList_inj.1 (List.append_cancel_right htail)

private theorem WithCodes.delete {code : String} {codes : List String} {coloured plain : List Char}
    (hcodes : ∀ other ∈ codes, code.length = other.length ∧ '\x1b' ∉ other.toList)
    (h : WithCodes (code :: codes) coloured plain) :
    WithCodes codes (Text.replaceFrom (colourCode code) [] 0 coloured) plain := by
  induction h with
  | nil => exact .nil
  | @bare c coloured plain hc _ ih =>
    have hnone : (colourCode code).isPrefixOf (c :: coloured) = false := by
      rw [colourCode, List.isPrefixOf, beq_false_of_ne (Ne.symm hc), Bool.false_and]
    rw [Text.replaceFrom_cons [] hnone]
    exact .bare hc ih
  | @code other coloured plain hother _ ih =>
    by_cases hsame : other = code
    · have hne : colourCode code ≠ [] := List.cons_ne_nil _ _
      rw [hsame, Text.replaceFrom_append [] coloured hne]
      exact ih
    · -- No other code is taken, neither at its beginning nor later.
      have hmem := List.mem_of_ne_of_mem hsame hother
      obtain ⟨hlength, hescape⟩ := hcodes other hmem
      have hnone : (colourCode code).isPrefixOf (colourCode other ++ coloured) = false := by
        rw [← Bool.not_eq_true, List.isPrefixOf_iff_prefix]
        exact fun hprefix => hsame (eq_of_prefix_colourCode hlength hprefix).symm
      have htail : '\x1b' ∉ '[' :: (other.toList ++ ['m']) := by simp [hescape]
      have hkept : Text.replaceFrom (colourCode code) [] 0 (colourCode other ++ coloured) =
          colourCode other ++ Text.replaceFrom (colourCode code) [] 0 coloured :=
        calc Text.replaceFrom (colourCode code) [] 0 (colourCode other ++ coloured)
          _ = '\x1b' :: Text.replaceFrom (colourCode code) [] 0
                ('[' :: (other.toList ++ ['m']) ++ coloured) := Text.replaceFrom_cons [] hnone
          _ = '\x1b' :: ('[' :: (other.toList ++ ['m']) ++
                Text.replaceFrom (colourCode code) [] 0 coloured) :=
              congrArg _ (Text.replaceFrom_append_of_notMem htail _ [] coloured)
      rw [hkept]
      exact .code hmem ih

/-- Deleting all codes that a text has leaves the text without them. -/
theorem WithCodes.foldl {codes : List String} {text plain : String}
    (hcodes : ∀ code ∈ codes, code.length = 2 ∧ '\x1b' ∉ code.toList)
    (h : WithCodes codes text.toList plain.toList) :
    codes.foldl (fun text code => Text.replaceAll (String.ofList (colourCode code)) "" text) text =
      plain := by
  induction codes generalizing text with
  | nil => exact String.toList_inj.1 (eq_of_withCodes_nil h)
  | cons code codes ih =>
    rw [List.forall_mem_cons] at hcodes
    obtain ⟨⟨hcode, -⟩, hothers⟩ := hcodes
    rw [List.foldl_cons]
    apply ih hothers
    unfold Text.replaceAll
    rw [String.toList_ofList, String.toList_ofList]
    apply h.delete
    intro other hother
    obtain ⟨hlength, hescape⟩ := hothers other hother
    exact ⟨hcode.trans hlength.symm, hescape⟩

/-- Colours only add codes to an excerpt. The codes of an excerpt in colours come in pairs, around
something on a single line, and deleting them gives the plain excerpt. On a terminal that shows
colours the automatic style is that with colours, and else the plain one. -/
theorem excerpt_colours {message : String} (hmessage : '\x1b' ∉ message.toList) (source : String)
    (position : Position) (terminal : Bool) :
    Painted (excerpt message source position .ansi terminal).toList
        (excerpt message source position .plain terminal).toList ∧
      withoutColours (excerpt message source position .ansi terminal) =
        excerpt message source position .plain terminal ∧
      excerpt message source position .auto terminal =
        if terminal then excerpt message source position .ansi terminal
        else excerpt message source position .plain terminal := by
  have hpainted := painted_excerpt hmessage source position terminal
  refine ⟨hpainted, ?_, ?_⟩
  · exact hpainted.withCodes.foldl (by decide)
  · cases terminal with
    | false => rfl
    | true => rfl

/-- A message of two lines, and a source that has a colour code of its own. -/
theorem excerpt_colours_escape :
    let coloured := "\nno\nline 0, column 6\n\x1b[90m1 | \x1b[39m [31m \x1b[31mx\x1b[39m y\n" ++
      "\x1b[90m  | \x1b[39m      \x1b[33m^\x1b[39m"
    let plain := "\nno\nline 0, column 6\n1 |  [31m x y\n  |       ^"
    '\x1b' ∉ "no\n{position}".toList ∧
      excerpt "no\n{position}" "\x1b[31m x y" ⟨0, 6⟩ .ansi true = coloured ∧
      Painted coloured.toList plain.toList ∧ withoutColours coloured = plain ∧
      excerpt "no\n{position}" "\x1b[31m x y" ⟨0, 6⟩ .auto true = coloured := by
  intro coloured plain
  have hmessage : '\x1b' ∉ "no\n{position}".toList := by decide
  have hcoloured : excerpt "no\n{position}" "\x1b[31m x y" ⟨0, 6⟩ .ansi true = coloured := by
    decide +kernel
  have hplain : excerpt "no\n{position}" "\x1b[31m x y" ⟨0, 6⟩ .plain true = plain := by
    decide +kernel
  obtain ⟨hpainted, hwithout, hauto⟩ := excerpt_colours hmessage "\x1b[31m x y" ⟨0, 6⟩ true
  rw [hcoloured, hplain] at hpainted hwithout
  rw [if_pos rfl, hcoloured] at hauto
  exact ⟨hmessage, hcoloured, hpainted, hwithout, hauto⟩

end Script.Diagnostic
