import Mathlib.Data.List.Chain
import Script.Proofs.Grammar.Sentence
import Script.Proofs.Grammar.Soundness
import Script.Proofs.Recovery.SyncPoint
import Script.Proofs.Tree.Places
/-!
# Braces and semicolons in a sentence

A function ends with the brace that closes its body, and every other sentence with a semicolon. No
token before can end the sentence, except for the semicolon of a step inside of parentheses; and
behind such a semicolon the parentheses go on, so no sentence could begin there.
-/

namespace Script.Grammar

open Script.Parser

/-- Behind a semicolon stands what may follow a step inside of parentheses. -/
def GoesOn (a b : Token) : Prop := a.value = ";" → b.value = ")" ∨ b.value = ","

/-- No brace, and no semicolon but the last token and those of steps inside of parentheses. -/
structure Flat (ts : List Token) : Prop where
  no_brace : ∀ t ∈ ts, t.value ≠ "\x7b" ∧ t.value ≠ "\x7d"
  goes_on : ts.IsChain GoesOn

def Mild (t : Token) : Prop := t.value ≠ "\x7b" ∧ t.value ≠ "\x7d" ∧ t.value ≠ ";"

/-- No prefix closes more braces than it opens. -/
def Nested (ts : List Token) : Prop := ∀ us, us <+: ts → closed us ≤ opened us

structure Balanced (ts : List Token) : Prop where
  closed_le : ∀ us, us <+: ts → closed us ≤ opened us
  closed_eq : closed ts = opened ts

/-! ### Tokens that are neither braces nor semicolons -/

theorem mild_of_notMem_signs {t : Token} (h : t.value ∉ signs) : Mild t :=
  ⟨ne_of_notMem_signs h (by decide), ne_of_notMem_signs h (by decide),
    ne_of_notMem_signs h (by decide)⟩

theorem Word.mild {t : Token} (h : Word t) : Mild t := mild_of_notMem_signs h.notMem_signs

theorem mild_of_eq {t : Token} {text : String} (h : t.value = text)
    (ht : text ≠ "\x7b" ∧ text ≠ "\x7d" ∧ text ≠ ";") : Mild t := by
  rw [Mild, h]
  exact ht

theorem mild_of_eq_or {t : Token} {a b : String} (h : t.value = a ∨ t.value = b)
    (ha : a ≠ "\x7b" ∧ a ≠ "\x7d" ∧ a ≠ ";") (hb : b ≠ "\x7b" ∧ b ≠ "\x7d" ∧ b ≠ ";") : Mild t :=
  h.elim (mild_of_eq · ha) (mild_of_eq · hb)

theorem Nominal.mild {t : Token} (h : Nominal t) : Mild t := by
  have hbrackets : ∀ text ∈ brackets, text ≠ "\x7b" ∧ text ≠ "\x7d" ∧ text ≠ ";" := by decide
  exact h.elim Word.mild (hbrackets _)

theorem TypeName.mild {ts : List Token} {s : String} (h : TypeName ts s) : ∀ t ∈ ts, Mild t :=
  fun t ht => (h.nominal t ht).mild

theorem Modified.mild {ms : List Token} {m : Modifiers} (h : Modified ms m) : ∀ t ∈ ms, Mild t :=
  fun t ht => (h.word t ht).1.mild

theorem DeclaredParameter.mild {ts : List Token} {p : Parameter} (h : DeclaredParameter ts p) :
    ∀ t ∈ ts, Mild t :=
  fun t ht => (h.nominal t ht).mild

section

variable {α : Type} {item : List Token → α → Prop}

private theorem Items.mild {ts : List Token} {as : List α}
    (hitem : ∀ us a, item us a → ∀ t ∈ us, Mild t) (h : Items item ts as) : ∀ t ∈ ts, Mild t := by
  induction h with
  | last h hr =>
    exact List.forall_mem_append.2 ⟨hitem _ _ h, by simpa using mild_of_eq hr (by decide)⟩
  | more h hc _ ih =>
    exact List.forall_mem_append.2 ⟨hitem _ _ h,
      List.forall_mem_cons.2 ⟨mild_of_eq hc (by decide), ih⟩⟩

theorem Parenthesized.mild {ts : List Token} {as : List α}
    (hitem : ∀ us a, item us a → ∀ t ∈ us, Mild t) (h : Parenthesized item ts as) :
    ∀ t ∈ ts, Mild t := by
  cases h with
  | none hl hr =>
    exact List.forall_mem_cons.2 ⟨mild_of_eq hl (by decide),
      by simpa using mild_of_eq hr (by decide)⟩
  | some hl h => exact List.forall_mem_cons.2 ⟨mild_of_eq hl (by decide), h.mild hitem⟩

end

/-! ### Values -/

theorem flat_nil : Flat [] := ⟨by simp, .nil⟩

theorem Flat.append {ts us : List Token} (h : Flat ts) (h' : Flat us)
    (hjoin : ∀ a ∈ ts.getLast?, ∀ b ∈ us.head?, GoesOn a b) : Flat (ts ++ us) :=
  ⟨List.forall_mem_append.2 ⟨h.no_brace, h'.no_brace⟩, h.goes_on.append h'.goes_on hjoin⟩

theorem Flat.cons {t : Token} {ts : List Token} (ht : Mild t) (h : Flat ts) : Flat (t :: ts) :=
  ⟨List.forall_mem_cons.2 ⟨⟨ht.1, ht.2.1⟩, h.no_brace⟩,
    h.goes_on.cons fun _ _ he => absurd he ht.2.2⟩

theorem Flat.goesOn {ts us : List Token} {a b : Token} (h : Flat (ts ++ a :: b :: us)) :
    GoesOn a b :=
  (List.isChain_cons_cons.1 h.goes_on.right_of_append).1

theorem Flat.append_cons {ts us : List Token} {sign : Token} (h : Flat ts)
    (hs : sign.value = ")" ∨ sign.value = ",") (h' : Flat us) : Flat (ts ++ sign :: us) := by
  have hsign : Mild sign := mild_of_eq_or hs (by decide) (by decide)
  refine h.append (h'.cons hsign) fun a _ b hb _ => ?_
  obtain rfl := Option.some.inj hb
  exact hs

private theorem Flat.append_semicolon {ts : List Token} {last semicolon : Token}
    (h : Flat (ts ++ [last])) (hlast : last.value ≠ ";") (he : semicolon.value = ";") :
    Flat (ts ++ [last] ++ [semicolon]) := by
  refine h.append ⟨by simp [he], .singleton _⟩ fun a ha b _ hsemicolon => ?_
  obtain rfl : last = a := by simpa using ha
  exact absurd hsemicolon hlast

theorem Step.flat {ts : List Token} {v : Value} (h : Step ts v) : Flat ts := by
  have hsign : ∀ {sign : Token}, sign.value = "++" ∨ sign.value = "--" → Mild sign := fun hs =>
    mild_of_eq_or hs (by decide) (by decide)
  cases h with
  | before hs hn he =>
    exact .cons (hsign hs) (.cons hn.mild ⟨by simp [he], .singleton _⟩)
  | behind hn hs he =>
    exact .cons hn.mild (.cons (hsign hs) ⟨by simp [he], .singleton _⟩)

mutual

theorem Expression.flat {ts : List Token} {v : Value} : Expression ts v → Flat ts
  | .step h => h.flat
  | .plain h => h.flat

private theorem Plain.flat {ts : List Token} {v : Value} : Plain ts v → Flat ts
  | .group hl h hr => .cons (mild_of_eq hl (by decide)) (h.flat.append_cons (.inl hr) flat_nil)
  | .call hn h => .cons hn.mild (Parenthesized.flat h)
  | .literal h => .cons (mild_of_notMem_signs (notMem_signs_of_literal h)) flat_nil
  | .reference _ hw => .cons hw.mild flat_nil

theorem Parenthesized.flat {ts : List Token} {vs : List Value} :
    Parenthesized Expression ts vs → Flat ts
  | .none hl hr => .cons (mild_of_eq hl (by decide)) (.cons (mild_of_eq hr (by decide)) flat_nil)
  | .some hl h => .cons (mild_of_eq hl (by decide)) (Items.flat h)

theorem Items.flat {ts : List Token} {vs : List Value} : Items Expression ts vs → Flat ts
  | .last h hr => h.flat.append_cons (.inl hr) flat_nil
  | .more h hc hs => h.flat.append_cons (.inr hc) (Items.flat hs)

end

theorem Terminated.flat {ts : List Token} {v : Value} (h : Terminated ts v) : Flat ts := by
  cases h with
  | step h => exact h.flat
  | plain h he =>
    have hflat := h.flat
    obtain ⟨init, last, rfl, hlast⟩ := h.exists_last
    exact hflat.append_semicolon hlast he

/-! ### Braces -/

theorem opened_eq_zero {ts : List Token} (h : ∀ t ∈ ts, t.value ≠ "\x7b") : opened ts = 0 :=
  List.countP_eq_zero.2 fun t ht => by simpa [Token.is] using h t ht

theorem closed_eq_zero {ts : List Token} (h : ∀ t ∈ ts, t.value ≠ "\x7d") : closed ts = 0 :=
  List.countP_eq_zero.2 fun t ht => by simpa [Token.is] using h t ht

theorem balanced_nil : Balanced [] where
  closed_le us hus := by rw [List.prefix_nil.1 hus, closed_nil, opened_nil]
  closed_eq := rfl

theorem balanced_of_no_brace {ts : List Token}
    (h : ∀ t ∈ ts, t.value ≠ "\x7b" ∧ t.value ≠ "\x7d") : Balanced ts where
  closed_le us hus := by
    rw [closed_eq_zero fun t ht => (h t (hus.subset ht)).2]
    exact Nat.zero_le _
  closed_eq := by
    rw [closed_eq_zero fun t ht => (h t ht).2, opened_eq_zero fun t ht => (h t ht).1]

theorem Balanced.append_nested {ts us : List Token} (h : Balanced ts) (h' : Nested us) :
    Nested (ts ++ us) := by
  intro vs hvs
  obtain ⟨rest, hrest⟩ := hvs
  rcases List.append_eq_append_iff.1 hrest with ⟨more, rfl, -⟩ | ⟨ws, rfl, rfl⟩
  · exact h.closed_le vs (List.prefix_append vs more)
  · have hle := h' ws (List.prefix_append ws rest)
    have heq := h.closed_eq
    rw [closed_append, opened_append]
    omega

theorem Balanced.append {ts us : List Token} (h : Balanced ts) (h' : Balanced us) :
    Balanced (ts ++ us) where
  closed_le := h.append_nested h'.closed_le
  closed_eq := by
    rw [closed_append, opened_append, h.closed_eq, h'.closed_eq]

private theorem Balanced.block {header us : List Token} {left right : Token}
    (hheader : ∀ t ∈ header, Mild t) (hl : left.value = "\x7b") (h : Balanced us)
    (hr : right.value = "\x7d") : Balanced (header ++ left :: (us ++ [right])) := by
  refine (balanced_of_no_brace fun t ht => ⟨(hheader t ht).1, (hheader t ht).2.1⟩).append ?_
  have hclosed := h.closed_eq
  constructor
  · intro vs hvs
    rcases List.prefix_cons_iff.1 hvs with rfl | ⟨ws, rfl, hws⟩
    · exact Nat.le_refl 0
    · rcases List.prefix_concat_iff.1 hws with rfl | hws
      · simp [opened_cons, closed_cons, Token.is, hl, hr, hclosed]
      · have hle := h.closed_le ws hws
        simp only [opened_cons, closed_cons, Token.is, hl]
        simp only [String.reduceBEq, Bool.false_eq_true, if_false, if_true]
        omega
  · simp [opened_cons, closed_cons, Token.is, hl, hr, hclosed]

/-! ### What ends a statement -/

/-- Tokens that are neither braces nor semicolons only shift the points behind them. -/
theorem exists_syncPoint_of_append {header us : List Token} {j : Nat}
    (hheader : ∀ t ∈ header, Mild t) (h : SyncPoint 0 (header ++ us) j) :
    ∃ i, j = header.length + i ∧ SyncPoint 0 us i := by
  induction header generalizing j with
  | nil => exact ⟨j, (Nat.zero_add j).symm, h⟩
  | cons t header ih =>
    obtain ⟨ht, hheader⟩ := List.forall_mem_cons.1 hheader
    have hdepth : 0 + opened [t] = 0 + closed [t] := by
      simp [opened_cons, closed_cons, Token.is, ht.1, ht.2.1]
    cases j with
    | zero =>
      rcases syncPoint_zero_iff.1 h with ⟨he, -⟩ | ⟨he, -⟩
      · exact absurd he ht.2.2
      · exact absurd he ht.2.1
    | succ j =>
      obtain ⟨i, rfl, hi⟩ := ih hheader ((syncPoint_succ_iff hdepth).1 h)
      exact ⟨i, by rw [List.length_cons]; omega, hi⟩

/-- Inside of a brace that is not closed, nothing ends the statement. -/
theorem Nested.not_syncPoint {us : List Token} (h : Nested us) {depth : Nat} (hdepth : 0 < depth)
    (j : Nat) : ¬SyncPoint depth us j := by
  rintro ⟨before, token, behind, rfl, -, ⟨-, hcount⟩ | ⟨-, hcount⟩⟩
  · have hle := h before (List.prefix_append _ _)
    omega
  · have hle := h (before ++ [token]) ⟨behind, by simp⟩
    omega

theorem Nested.not_syncPoint_block {left : Token} {us : List Token} (hl : left.value = "\x7b")
    (h : Nested us) (j : Nat) : ¬SyncPoint 0 (left :: us) j := by
  have hdepth : 0 + opened [left] = 1 + closed [left] := by
    simp [opened_cons, closed_cons, Token.is, hl]
  intro hpoint
  cases j with
  | zero =>
    have hends := syncPoint_zero_iff.1 hpoint
    simp [EndsStatement, hl] at hends
  | succ j => exact h.not_syncPoint Nat.one_pos j ((syncPoint_succ_iff hdepth).1 hpoint)

private theorem Balanced.not_endsStatement {header us before behind : List Token}
    {left right token next : Token} (hheader : ∀ t ∈ header, Mild t) (hl : left.value = "\x7b")
    (h : Balanced us)
    (htokens : header ++ left :: (us ++ [right]) = before ++ token :: next :: behind) :
    ¬EndsStatement 0 before token := by
  intro hends
  have hlt : before.length < (header ++ left :: us).length := by
    have hlength := congrArg List.length htokens
    simp only [List.length_append, List.length_cons, List.length_nil] at hlength ⊢
    omega
  have hpoint : SyncPoint 0 (header ++ left :: us ++ [right]) before.length := by
    rw [List.append_assoc, List.cons_append]
    exact ⟨before, token, next :: behind, htokens, rfl, hends⟩
  obtain ⟨i, -, hi⟩ := exists_syncPoint_of_append hheader ((syncPoint_append_iff hlt).1 hpoint)
  exact Nested.not_syncPoint_block hl h.closed_le i hi

/-! ### Sentences -/

def EndsFlat (ts : List Token) : Prop :=
  Flat ts ∧ ∃ us semicolon, ts = us ++ [semicolon] ∧ semicolon.value = ";"

theorem EndsFlat.append {ts us : List Token} (hts : ∀ t ∈ ts, Mild t) (h : EndsFlat us) :
    EndsFlat (ts ++ us) := by
  obtain ⟨hflat, vs, semicolon, rfl, he⟩ := h
  refine ⟨?_, ts ++ vs, semicolon, by simp, he⟩
  induction ts with
  | nil => exact hflat
  | cons t ts ih =>
    obtain ⟨ht, hts⟩ := List.forall_mem_cons.1 hts
    exact (ih hts).cons ht

theorem EndsFlat.cons {t : Token} {ts : List Token} (ht : Mild t) (h : EndsFlat ts) :
    EndsFlat (t :: ts) := by
  have hsingle : ∀ u ∈ [t], Mild u := by simpa using ht
  exact .append hsingle h

theorem Step.endsFlat {ts : List Token} {v : Value} (h : Step ts v) : EndsFlat ts := by
  have hflat := h.flat
  obtain ⟨init, semicolon, rfl, he⟩ := h.exists_semicolon
  exact ⟨hflat, init, semicolon, rfl, he⟩

theorem Terminated.endsFlat {ts : List Token} {v : Value} (h : Terminated ts v) :
    EndsFlat ts := by
  have hflat := h.flat
  cases h with
  | step h => exact h.endsFlat
  | plain h he => exact ⟨hflat, _, _, rfl, he⟩

theorem endsFlat_semicolon {semicolon : Token} (he : semicolon.value = ";") :
    EndsFlat [semicolon] :=
  ⟨⟨by simp [he], .singleton _⟩, [], semicolon, rfl, he⟩

private theorem Initializer.endsFlat {constant : Bool} {ts : List Token} {value? : Option Value}
    (h : Initializer constant ts value?) : EndsFlat ts := by
  cases h with
  | none he => exact endsFlat_semicolon he
  | some he h => exact .cons (mild_of_eq he (by decide)) h.endsFlat

/-- A sentence ends with a semicolon, or it is a function and its body stands in the only braces. -/
theorem Sentence.endsFlat_or_block {ts : List Token} {element? : Option Element}
    (h : Sentence ts element?) :
    EndsFlat ts ∨ ∃ header left us right body, ts = header ++ left :: (us ++ [right]) ∧
      (∀ t ∈ header, Mild t) ∧ left.value = "\x7b" ∧ Program us body ∧ right.value = "\x7d" ∧
      ∃ e, element? = some e ∧ e.children = body := by
  cases h with
  | empty he => exact .inl (endsFlat_semicolon he)
  | step h => exact .inl h.endsFlat
  | returned hw h => exact .inl (h.endsFlat.cons (mild_of_eq hw (by decide)))
  | call hn hs h he => exact .inl (Terminated.plain (.call hn h) he).endsFlat
  | group hl hl' h hr' hr he =>
    have hflat := (Terminated.plain (.group hl (.plain (.group hl' h hr')) hr) he).endsFlat
    simp only [List.cons_append, List.append_assoc, List.nil_append] at hflat
    exact .inl hflat
  | declared hm ht hd hs hn h _ =>
    obtain ⟨hword, hts⟩ := List.forall_mem_cons.1 ht.mild
    exact .inl (.append hm.mild (.cons hword (.append hts (.cons hn.mild h.endsFlat))))
  | @function ms ps ts us _ func name left right _ _ body hm hf hn hp ht hl h hr =>
    refine .inr ⟨ms ++ (func :: name :: (ps ++ ts)), left, us, right, body, by simp, ?_, hl, h, hr,
      _, rfl, rfl⟩
    have hps := hp.mild fun us p hp => hp.mild
    refine List.forall_mem_append.2 ⟨hm.mild, List.forall_mem_cons.2 ⟨?_, ?_⟩⟩
    · exact mild_of_eq hf (by decide)
    · exact List.forall_mem_cons.2 ⟨hn.mild, List.forall_mem_append.2 ⟨hps, ht.mild⟩⟩
  | assigned hn hs hd he h =>
    exact .inl (.cons hn.mild (.cons (mild_of_eq he (by decide)) h.endsFlat))

theorem Sentence.length_pos {ts : List Token} {element? : Option Element}
    (h : Sentence ts element?) : 0 < ts.length := by
  obtain ⟨t, us, rfl, -⟩ := h.exists_first
  exact Nat.succ_pos _

mutual

theorem Sentence.balanced {ts : List Token} {element? : Option Element}
    (h : Sentence ts element?) : Balanced ts := by
  rcases h.endsFlat_or_block with ⟨hflat, -⟩ |
    ⟨header, left, us, right, body, rfl, hheader, hl, hbody, hr, -⟩
  · exact balanced_of_no_brace hflat.no_brace
  · exact .block hheader hl hbody.balanced hr
termination_by 2 * ts.length

theorem Program.balanced {ts : List Token} {elements : List Element} (h : Program ts elements) :
    Balanced ts := by
  cases h with
  | nil => exact balanced_nil
  | cons h hs =>
    have hpos := h.length_pos
    exact h.balanced.append hs.balanced
termination_by 2 * ts.length + 1

end

theorem Sentence.syncPoint_last {ts : List Token} {element? : Option Element}
    (h : Sentence ts element?) : ∃ j, j + 1 = ts.length ∧ SyncPoint 0 ts j := by
  rcases h.endsFlat_or_block with ⟨hflat, us, semicolon, rfl, he⟩ |
    ⟨header, left, us, right, body, rfl, hheader, hl, hbody, hr, -⟩
  · refine ⟨us.length, by simp, us, semicolon, [], rfl, rfl, ?_⟩
    rw [endsStatement_semicolon_iff he]
    have hus : ∀ t ∈ us, t.value ≠ "\x7b" ∧ t.value ≠ "\x7d" := fun t ht =>
      hflat.no_brace t (List.mem_append_left _ ht)
    rw [closed_eq_zero fun t ht => (hus t ht).2, opened_eq_zero fun t ht => (hus t ht).1]
  · refine ⟨(header ++ left :: us).length, ?_, header ++ left :: us, right, [], by simp, rfl, ?_⟩
    · simp only [List.length_append, List.length_cons, List.length_nil]
      omega
    rw [endsStatement_brace_iff hr]
    have hclosed := hbody.balanced.closed_eq
    have hopened : opened header = 0 := opened_eq_zero fun t ht => (hheader t ht).1
    simp only [opened_append, opened_cons, closed_append, closed_cons, Token.is, hl]
    simp only [String.reduceBEq, Bool.false_eq_true, if_false, if_true]
    omega

/-- A token before the last that could end a sentence does not: the sentence goes on with what no
other begins with. -/
theorem Sentence.goesOn_of_syncPoint {before behind : List Token} {token next : Token}
    {element? : Option Element} (h : Sentence (before ++ token :: next :: behind) element?)
    (hends : EndsStatement 0 before token) : next.value = ")" ∨ next.value = "," := by
  rcases h.endsFlat_or_block with ⟨hflat, -⟩ |
    ⟨header, left, us, right, body, htokens, hheader, hl, hbody, hr, -⟩
  · rcases hends with ⟨he, -⟩ | ⟨he, -⟩
    · exact hflat.goesOn he
    · exact absurd he (hflat.no_brace token (by simp)).2
  · exact absurd hends (hbody.balanced.not_endsStatement hheader hl htokens.symm)

end Script.Grammar
