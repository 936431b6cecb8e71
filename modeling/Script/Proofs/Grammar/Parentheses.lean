import Mathlib.Data.List.Basic
import Script.Proofs.Grammar.Program
/-!
# Parentheses and semicolons

The parentheses of a program are balanced. A semicolon ends a statement outside of them, and inside
of them it stands in one place only: it ends a step that is an argument, or that is all there is in
a group. So a semicolon does not always end a statement, and where it does not can be told from the
tokens beside it.
-/

namespace Script

open Script.Parser Script.Grammar

namespace Grammar

inductive Matched : List Token → Prop
  | nil : Matched []
  | other {t : Token} {ts : List Token} (hl : t.value ≠ "(") (hr : t.value ≠ ")")
      (h : Matched ts) : Matched (t :: ts)
  | pair {left right : Token} {ts us : List Token} (hl : left.value = "(") (h : Matched ts)
      (hr : right.value = ")") (h' : Matched us) : Matched (left :: (ts ++ right :: us))

/-- A token with these tokens before it and behind it stands between a parenthesis and its
partner. -/
def Between (before : List Token) (token : Token) (behind : List Token) : Prop :=
  ∃ outer left inner inner' right outer', before = outer ++ left :: inner ∧
    behind = inner' ++ right :: outer' ∧ left.value = "(" ∧ Matched (inner ++ token :: inner') ∧
    right.value = ")"

/-- The token is the last of a step, and what follows it closes parentheses or begins another
argument. -/
def EndsStepInside (before : List Token) (token : Token) (behind : List Token) : Prop :=
  ∃ ahead step v sign rest, before ++ [token] = ahead ++ step ∧ Step step v ∧
    behind = sign :: rest ∧ (sign.value = ")" ∨ sign.value = ",")

def depth (tokens : List Token) : Int :=
  (tokens.countP (·.is "(") : Int) - (tokens.countP (·.is ")") : Int)

/-- The token is no sign that this module is about. -/
def Bland (t : Token) : Prop := t.value ∉ ["(", ")", ",", ";"]

/-- How these signs may stand, inside of parentheses or outside. -/
inductive Arranged : Bool → List Token → Prop
  | nil {inside : Bool} : Arranged inside []
  | bland {inside : Bool} {t : Token} {ts : List Token} (ht : Bland t) (h : Arranged inside ts) :
      Arranged inside (t :: ts)
  | pair {inside : Bool} {left right : Token} {ts us : List Token} (hl : left.value = "(")
      (h : Arranged true ts) (hr : right.value = ")") (h' : Arranged inside us) :
      Arranged inside (left :: (ts ++ right :: us))
  | comma {t : Token} {ts : List Token} (ht : t.value = ",") (h : Arranged true ts) :
      Arranged true (t :: ts)
  /-- A step is followed by a comma, or by the parenthesis that closes the list. -/
  | step {step ts : List Token} {v : Value} (hs : Step step v) (h : Arranged true ts)
      (hnext : ∀ t ∈ ts.head?, t.value = ",") : Arranged true (step ++ ts)
  | semicolon {t : Token} {ts : List Token} (ht : t.value = ";") (h : Arranged false ts) :
      Arranged false (t :: ts)

/-! ### Counting parentheses -/

@[simp] theorem depth_append (ts us : List Token) : depth (ts ++ us) = depth ts + depth us := by
  unfold depth
  rw [List.countP_append, List.countP_append]
  omega

theorem depth_singleton (t : Token) :
    depth [t] = if t.value = "(" then 1 else if t.value = ")" then -1 else 0 := by
  unfold depth
  by_cases hl : t.value = "("
  · simp [Token.is, hl]
  · by_cases hr : t.value = ")"
    · simp [Token.is, hr]
    · simp [Token.is, hl, hr]

theorem depth_cons (t : Token) (ts : List Token) : depth (t :: ts) = depth [t] + depth ts :=
  depth_append [t] ts

theorem depth_left {left : Token} (hl : left.value = "(") : depth [left] = 1 := by
  rw [depth_singleton, if_pos hl]

theorem depth_right {right : Token} (hr : right.value = ")") : depth [right] = -1 := by
  rw [depth_singleton, hr]
  rfl

theorem depth_other {t : Token} (hl : t.value ≠ "(") (hr : t.value ≠ ")") : depth [t] = 0 := by
  rw [depth_singleton, if_neg hl, if_neg hr]

theorem depth_pair {left right : Token} {ts : List Token} (hl : left.value = "(")
    (hr : right.value = ")") (hts : depth ts = 0) : depth (left :: (ts ++ [right])) = 0 := by
  rw [depth_cons, depth_append, depth_left hl, depth_right hr, hts]
  rfl

/-! ### Partners -/

theorem split_of_append {ts us before behind : List Token} {token : Token}
    (h : ts ++ us = before ++ token :: behind) :
    (∃ rest, ts = before ++ token :: rest ∧ behind = rest ++ us) ∨
      ∃ rest, before = ts ++ rest ∧ us = rest ++ token :: behind := by
  rcases List.append_eq_append_iff.1 h with ⟨rest, rfl, hus⟩ | ⟨rest, rfl, hbehind⟩
  · exact .inr ⟨rest, rfl, hus⟩
  · cases rest with
    | nil => exact .inr ⟨[], by simp, hbehind.symm⟩
    | cons first rest =>
      obtain ⟨rfl, rfl⟩ := List.cons.inj hbehind
      exact .inl ⟨rest, rfl, rfl⟩

theorem split_of_pair {left right token : Token} {ts us before behind : List Token}
    (hl : left.value = "(") (hr : right.value = ")") (htl : token.value ≠ "(")
    (htr : token.value ≠ ")") (h : left :: (ts ++ right :: us) = before ++ token :: behind) :
    (∃ inner inner', before = left :: inner ∧ ts = inner ++ token :: inner' ∧
      behind = inner' ++ right :: us) ∨
      ∃ rest, before = left :: (ts ++ right :: rest) ∧ us = rest ++ token :: behind := by
  cases before with
  | nil =>
    obtain ⟨rfl, -⟩ := List.cons.inj h
    exact absurd hl htl
  | cons first before =>
    obtain ⟨rfl, hts⟩ := List.cons.inj h
    rcases split_of_append hts with ⟨rest, rfl, rfl⟩ | ⟨rest, rfl, hrest⟩
    · exact .inl ⟨before, rest, rfl, rfl, rfl⟩
    · cases rest with
      | nil =>
        obtain ⟨rfl, -⟩ := List.cons.inj hrest
        exact absurd hr htr
      | cons first' rest =>
        obtain ⟨rfl, rfl⟩ := List.cons.inj hrest
        exact .inr ⟨rest, rfl, rfl⟩

theorem Matched.depth_eq_zero {ts : List Token} (h : Matched ts) : depth ts = 0 := by
  induction h with
  | nil => rfl
  | other hl hr _ ih => rw [depth_cons, depth_other hl hr, ih, Int.add_zero]
  | @pair left right ts us hl _ hr _ ih ih' =>
    have hsplit : left :: (ts ++ right :: us) = left :: (ts ++ [right]) ++ us := by simp
    rw [hsplit, depth_append, depth_pair hl hr ih, ih', Int.add_zero]

/-- No parenthesis is closed before it is opened. -/
theorem Matched.depth_nonneg {ts : List Token} (h : Matched ts) {before behind : List Token}
    (hts : ts = before ++ behind) : 0 ≤ depth before := by
  induction h generalizing before behind with
  | nil =>
    obtain ⟨rfl, -⟩ := List.append_eq_nil_iff.1 hts.symm
    exact Int.le_refl 0
  | @other t ts hl hr _ ih =>
    cases before with
    | nil => exact Int.le_refl 0
    | cons first before =>
      obtain ⟨rfl, rfl⟩ := List.cons.inj hts
      rw [depth_cons, depth_other hl hr, Int.zero_add]
      exact ih rfl
  | @pair left right ts us hl h hr _ ih ih' =>
    cases before with
    | nil => exact Int.le_refl 0
    | cons first before =>
      obtain ⟨rfl, htail⟩ := List.cons.inj hts
      rw [depth_cons, depth_left hl]
      rcases List.append_eq_append_iff.1 htail with ⟨rest, rfl, hrest⟩ | ⟨rest, rfl, -⟩
      · cases rest with
        | nil =>
          have hzero := h.depth_eq_zero
          rw [List.append_nil]
          omega
        | cons first' rest =>
          obtain ⟨rfl, rfl⟩ := List.cons.inj hrest
          have hzero := h.depth_eq_zero
          have hbehind := ih' rfl
          rw [depth_append, depth_cons, depth_right hr]
          omega
      · have hbefore := ih rfl
        omega

private theorem Between.prepend {before behind : List Token} {token : Token}
    (h : Between before token behind) (ahead : List Token) :
    Between (ahead ++ before) token behind := by
  obtain ⟨outer, left, inner, inner', right, outer', rfl, rfl, hl, hinner, hr⟩ := h
  exact ⟨ahead ++ outer, left, inner, inner', right, outer', by simp, rfl, hl, hinner, hr⟩

/-- Between a parenthesis and its partner is where parentheses are left open. -/
theorem Matched.between_iff {before behind : List Token} {token : Token}
    (h : Matched (before ++ token :: behind)) (hl : token.value ≠ "(") (hr : token.value ≠ ")") :
    Between before token behind ↔ 0 < depth before := by
  constructor
  · rintro ⟨outer, left, inner, inner', right, outer', rfl, rfl, hleft, hinner, -⟩
    have houter : 0 ≤ depth outer := h.depth_nonneg (List.append_assoc ..)
    have hinner : 0 ≤ depth inner := hinner.depth_nonneg rfl
    rw [depth_append, depth_cons, depth_left hleft]
    omega
  · intro hpos
    generalize hts : before ++ token :: behind = ts at h
    induction h generalizing before with
    | nil => simp at hts
    | @other t ts htl htr _ ih =>
      cases before with
      | nil => exact absurd hpos (Int.lt_irrefl 0)
      | cons first before =>
        obtain ⟨rfl, hrest⟩ := List.cons.inj hts
        rw [depth_cons, depth_other htl htr, Int.zero_add] at hpos
        exact (ih hpos hrest).prepend [first]
    | @pair left right ts us hleft h hright _ ih ih' =>
      rcases split_of_pair hleft hright hl hr hts.symm with
        ⟨inner, inner', rfl, rfl, rfl⟩ | ⟨rest, rfl, hus⟩
      · exact ⟨[], left, inner, inner', right, us, rfl, rfl, hleft, h, hright⟩
      · have hsplit : left :: (ts ++ right :: rest) = left :: (ts ++ [right]) ++ rest := by simp
        rw [hsplit, depth_append, depth_pair hleft hright h.depth_eq_zero, Int.zero_add] at hpos
        rw [hsplit]
        exact (ih' hpos hus.symm).prepend _

/-! ### Bland tokens -/

theorem Bland.ne {t : Token} {text : String} (h : Bland t) (ht : text ∈ ["(", ")", ",", ";"]) :
    t.value ≠ text :=
  fun he => h (he ▸ ht)

theorem bland_of_eq {t : Token} {text : String} (h : t.value = text)
    (ht : text ∉ ["(", ")", ",", ";"]) : Bland t := by
  rw [Bland, h]
  exact ht

private theorem bland_of_eq_or {t : Token} {a b : String} (h : t.value = a ∨ t.value = b)
    (ha : a ∉ ["(", ")", ",", ";"]) (hb : b ∉ ["(", ")", ",", ";"]) : Bland t :=
  h.elim (bland_of_eq · ha) (bland_of_eq · hb)

theorem bland_of_notMem_signs {t : Token} (h : t.value ∉ signs) : Bland t := by
  have hsigns : ∀ text ∈ ["(", ")", ",", ";"], text ∈ signs := by decide
  exact fun hmem => h (hsigns _ hmem)

theorem Word.bland {t : Token} (h : Word t) : Bland t := bland_of_notMem_signs h.notMem_signs

theorem Bland.depth_eq_zero {t : Token} (h : Bland t) : depth [t] = 0 :=
  depth_other (h.ne (by decide)) (h.ne (by decide))

theorem Nominal.bland {t : Token} (h : Nominal t) : Bland t := by
  have hbrackets : ∀ text ∈ brackets, text ∉ ["(", ")", ",", ";"] := by decide
  exact h.elim Word.bland (hbrackets _)

theorem TypeName.bland {ts : List Token} {s : String} (h : TypeName ts s) : ∀ t ∈ ts, Bland t :=
  fun t ht => (h.nominal t ht).bland

private theorem DeclaredParameter.bland {ts : List Token} {p : Parameter}
    (h : DeclaredParameter ts p) : ∀ t ∈ ts, Bland t :=
  fun t ht => (h.nominal t ht).bland

theorem Step.exists_bland {ts : List Token} {v : Value} (h : Step ts v) :
    ∃ a b semicolon, ts = [a, b, semicolon] ∧ Bland a ∧ Bland b ∧ semicolon.value = ";" := by
  cases h with
  | before hs hn he =>
    exact ⟨_, _, _, rfl, bland_of_eq_or hs (by decide) (by decide), hn.bland, he⟩
  | behind hn hs he =>
    exact ⟨_, _, _, rfl, hn.bland, bland_of_eq_or hs (by decide) (by decide), he⟩

/-! ### How the signs are arranged -/

theorem Arranged.append_bland {inside : Bool} {ts us : List Token} (hts : ∀ t ∈ ts, Bland t)
    (h : Arranged inside us) : Arranged inside (ts ++ us) := by
  induction ts with
  | nil => exact h
  | cons t ts ih =>
    obtain ⟨ht, hts⟩ := List.forall_mem_cons.1 hts
    exact .bland ht (ih hts)

private theorem arranged_of_bland {inside : Bool} {ts : List Token} (hts : ∀ t ∈ ts, Bland t) :
    Arranged inside ts := by
  have h := Arranged.append_bland hts (.nil : Arranged inside [])
  rwa [List.append_nil] at h

/-- Inside of parentheses, what is put behind has to begin another item. -/
theorem Arranged.append {inside : Bool} {ts us : List Token} (h : Arranged inside ts)
    (h' : Arranged inside us) (hnext : inside = true → ∀ t ∈ us.head?, t.value = ",") :
    Arranged inside (ts ++ us) := by
  induction h with
  | nil => exact h'
  | bland ht _ ih => exact .bland ht (ih h' hnext)
  | pair hl h hr _ _ ih' =>
    rw [List.cons_append, List.append_assoc, List.cons_append]
    exact .pair hl h hr (ih' h' hnext)
  | comma ht _ ih => exact .comma ht (ih h' hnext)
  | @step step ts v hs _ hcomma ih =>
    rw [List.append_assoc]
    refine .step hs (ih h' hnext) ?_
    cases ts with
    | nil => exact hnext rfl
    | cons t ts => exact hcomma
  | semicolon ht _ ih => exact .semicolon ht (ih h' hnext)

theorem Arranged.append_outside {ts us : List Token} (h : Arranged false ts)
    (h' : Arranged false us) : Arranged false (ts ++ us) :=
  h.append h' nofun

private theorem Arranged.append_comma {ts us : List Token} {comma : Token} (h : Arranged true ts)
    (hc : comma.value = ",") (h' : Arranged true us) : Arranged true (ts ++ comma :: us) :=
  h.append (.comma hc h') fun _ => by simpa using hc

theorem arranged_semicolon {semicolon : Token} (he : semicolon.value = ";") :
    Arranged false [semicolon] :=
  .semicolon he .nil

private theorem Arranged.head_outside {ts : List Token} (h : Arranged false ts) :
    ∀ t ∈ ts.head?, t.value ≠ ")" ∧ t.value ≠ "," := by
  cases h with
  | nil => simp
  | bland ht _ => simpa using ⟨ht.ne (by decide), ht.ne (by decide)⟩
  | pair hl _ _ _ => simp [hl]
  | semicolon ht _ => simp [ht]

theorem Arranged.matched {inside : Bool} {ts : List Token} (h : Arranged inside ts) :
    Matched ts := by
  have hother : ∀ {t : Token} {ts : List Token} {text : String}, t.value = text →
      text ≠ "(" ∧ text ≠ ")" → Matched ts → Matched (t :: ts) := by
    rintro t ts _ rfl ⟨hl, hr⟩ h
    exact .other hl hr h
  have hbland : ∀ {t : Token} {ts : List Token}, Bland t → Matched ts → Matched (t :: ts) :=
    fun ht h => .other (ht.ne (by decide)) (ht.ne (by decide)) h
  induction h with
  | nil => exact .nil
  | bland ht _ ih => exact hbland ht ih
  | pair hl _ hr _ ih ih' => exact .pair hl ih hr ih'
  | comma ht _ ih => exact hother ht (by decide) ih
  | step hs _ _ ih =>
    obtain ⟨a, b, semicolon, rfl, ha, hb, he⟩ := hs.exists_bland
    exact hbland ha (hbland hb (hother he (by decide) ih))
  | semicolon ht _ ih => exact hother ht (by decide) ih

/-! ### Semicolons in an arrangement -/

/-- Where a semicolon stands among tokens that are arranged so. -/
inductive Placed : Bool → List Token → Token → List Token → Prop
  /-- In parentheses of these tokens. -/
  | nested {inside : Bool} {before behind : List Token} {token : Token}
      (hdepth : 0 < depth before) (h : EndsStepInside before token behind) :
      Placed inside before token behind
  /-- In the parentheses around the tokens; behind it they may end. -/
  | item {before behind ahead step : List Token} {token : Token} {v : Value}
      (hdepth : depth before = 0) (hbefore : before ++ [token] = ahead ++ step) (hs : Step step v)
      (hnext : ∀ t ∈ behind.head?, t.value = ",") : Placed true before token behind
  /-- In no parentheses. -/
  | outside {before behind : List Token} {token : Token} (hdepth : depth before = 0)
      (hnext : ∀ t ∈ behind.head?, t.value ≠ ")" ∧ t.value ≠ ",") :
      Placed false before token behind

theorem EndsStepInside.prepend {before behind : List Token} {token : Token}
    (h : EndsStepInside before token behind) (ahead : List Token) :
    EndsStepInside (ahead ++ before) token behind := by
  obtain ⟨front, step, v, sign, rest, hbefore, hs, rfl, hsign⟩ := h
  exact ⟨ahead ++ front, step, v, sign, rest, by rw [List.append_assoc, hbefore, List.append_assoc],
    hs, rfl, hsign⟩

theorem Placed.prepend {inside : Bool} {before behind ahead : List Token} {token : Token}
    (h : Placed inside before token behind) (hahead : depth ahead = 0) :
    Placed inside (ahead ++ before) token behind := by
  have hdepth : depth (ahead ++ before) = depth before := by
    rw [depth_append, hahead, Int.zero_add]
  cases h with
  | nested hpos h => exact .nested (hdepth ▸ hpos) (h.prepend ahead)
  | @item _ _ front step _ _ hzero hbefore hs hnext =>
    have hsplit : ahead ++ before ++ [token] = ahead ++ front ++ step := by
      rw [List.append_assoc, hbefore, List.append_assoc]
    exact .item (hdepth.trans hzero) hsplit hs hnext
  | outside hzero hnext => exact .outside (hdepth.trans hzero) hnext

private theorem Placed.enclosed {inside : Bool} {before behind us : List Token}
    {left token right : Token} (hl : left.value = "(")
    (h : Placed true before token behind) (hr : right.value = ")") :
    Placed inside (left :: before) token (behind ++ right :: us) := by
  have hdepth : depth (left :: before) = 1 + depth before := by rw [depth_cons, depth_left hl]
  cases h with
  | nested hpos h =>
    obtain ⟨front, step, v, sign, rest, hbefore, hs, rfl, hsign⟩ := h.prepend [left]
    refine .nested (by omega) ⟨front, step, v, sign, rest ++ right :: us, hbefore, hs, rfl, hsign⟩
  | @item _ _ front step _ v hzero hbefore hs hnext =>
    have hstep : left :: before ++ [token] = left :: front ++ step := by
      rw [List.cons_append, hbefore, List.cons_append]
    refine .nested (by omega) ?_
    cases behind with
    | nil => exact ⟨left :: front, step, v, right, us, hstep, hs, rfl, .inl hr⟩
    | cons sign rest =>
      exact ⟨left :: front, step, v, sign, rest ++ right :: us, hstep, hs, rfl,
        .inr (hnext sign rfl)⟩

private theorem placed_of_cons {inside : Bool} {t token : Token} {ts before behind : List Token}
    (ht : depth [t] = 0) (hne : t ≠ token) (hts : t :: ts = before ++ token :: behind)
    (h : ∀ rest, ts = rest ++ token :: behind → Placed inside rest token behind) :
    Placed inside before token behind := by
  cases before with
  | nil =>
    obtain ⟨rfl, -⟩ := List.cons.inj hts
    exact absurd rfl hne
  | cons first before =>
    obtain ⟨rfl, hrest⟩ := List.cons.inj hts
    show Placed inside ([t] ++ before) token behind
    exact (h before hrest).prepend ht

private theorem Step.depth_eq_zero {ts : List Token} {v : Value} (h : Step ts v) :
    depth ts = 0 := by
  obtain ⟨a, b, semicolon, rfl, ha, hb, he⟩ := h.exists_bland
  have hsemicolon : depth [semicolon] = 0 := depth_other (by simp [he]) (by simp [he])
  rw [depth_cons, depth_cons b, ha.depth_eq_zero, hb.depth_eq_zero, hsemicolon]
  rfl

private theorem Step.eq_of_semicolon {before rest step : List Token} {token : Token} {v : Value}
    (h : Step step v) (he : token.value = ";") (hts : step = before ++ token :: rest) :
    rest = [] := by
  obtain ⟨a, b, semicolon, rfl, ha, hb, -⟩ := h.exists_bland
  match before with
  | [] =>
    obtain ⟨rfl, -⟩ := List.cons.inj hts
    exact absurd he (ha.ne (by decide))
  | [_] =>
    obtain ⟨-, hrest⟩ := List.cons.inj hts
    obtain ⟨rfl, -⟩ := List.cons.inj hrest
    exact absurd he (hb.ne (by decide))
  | _ :: _ :: before =>
    have hlength := congrArg List.length hts
    simp only [List.length_append, List.length_cons, List.length_nil] at hlength
    exact List.eq_nil_of_length_eq_zero (by omega)

private theorem Arranged.placed {inside : Bool} {ts : List Token} (h : Arranged inside ts)
    {before behind : List Token} {token : Token} (he : token.value = ";")
    (hts : ts = before ++ token :: behind) : Placed inside before token behind := by
  have hother : ∀ {t : Token}, t.value ≠ ";" → t ≠ token := by
    rintro t ht rfl
    exact ht he
  induction h generalizing before behind with
  | nil => simp at hts
  | @bland _ t ts ht _ ih =>
    exact placed_of_cons ht.depth_eq_zero (hother (ht.ne (by decide))) hts fun _ hrest => ih hrest
  | @pair _ left right ts us hl h hr _ ih ih' =>
    rcases split_of_pair hl hr (by simp [he]) (by simp [he]) hts with
      ⟨inner, inner', rfl, rfl, rfl⟩ | ⟨rest, rfl, hus⟩
    · exact .enclosed hl (ih rfl) hr
    · have hsplit : left :: (ts ++ right :: rest) = left :: (ts ++ [right]) ++ rest := by simp
      rw [hsplit]
      exact (ih' hus).prepend (depth_pair hl hr h.matched.depth_eq_zero)
  | @comma t ts ht _ ih =>
    have hdepth : depth [t] = 0 := depth_other (by simp [ht]) (by simp [ht])
    exact placed_of_cons hdepth (hother (by simp [ht])) hts fun _ hrest => ih hrest
  | step hs _ hnext ih =>
    rcases split_of_append hts with ⟨rest, hstep, rfl⟩ | ⟨rest, rfl, hrest⟩
    · obtain rfl := hs.eq_of_semicolon he hstep
      have hdepth := hs.depth_eq_zero
      rw [hstep, depth_append, depth_other (by simp [he]) (by simp [he]), Int.add_zero] at hdepth
      have hbefore : before ++ [token] = [] ++ (before ++ [token]) := rfl
      exact .item hdepth hbefore (hstep ▸ hs) hnext
    · exact (ih hrest).prepend hs.depth_eq_zero
  | @semicolon t ts ht h ih =>
    cases before with
    | nil =>
      obtain ⟨rfl, rfl⟩ := List.cons.inj hts
      exact .outside rfl h.head_outside
    | cons first before =>
      obtain ⟨rfl, hrest⟩ := List.cons.inj hts
      have hdepth : depth [t] = 0 := depth_other (by simp [ht]) (by simp [ht])
      show Placed false ([t] ++ before) token behind
      exact (ih hrest).prepend hdepth

/-! ### Arrangements of the grammar -/

def ClosesList (ts : List Token) : Prop :=
  ∃ us right, ts = us ++ [right] ∧ Arranged true us ∧ right.value = ")"

theorem ClosesList.more {ts us : List Token} {comma : Token} (h : Arranged true ts)
    (hc : comma.value = ",") (h' : ClosesList us) : ClosesList (ts ++ comma :: us) := by
  obtain ⟨vs, right, rfl, hvs, hr⟩ := h'
  exact ⟨ts ++ comma :: vs, right, by simp, h.append_comma hc hvs, hr⟩

theorem ClosesList.arranged {inside : Bool} {left : Token} {ts : List Token} (hl : left.value = "(")
    (h : ClosesList ts) : Arranged inside (left :: ts) := by
  obtain ⟨us, right, rfl, hus, hr⟩ := h
  exact .pair hl hus hr .nil

mutual

theorem Expression.arranged {ts : List Token} {v : Value} : Expression ts v → Arranged true ts
  | .step h => by
    have hstep := Arranged.step h .nil (by simp)
    rwa [List.append_nil] at hstep
  | .plain h => h.arranged

private theorem Plain.arranged {inside : Bool} {ts : List Token} {v : Value} :
    Plain ts v → Arranged inside ts
  | .group hl h hr => .pair hl h.arranged hr .nil
  | .call hn h => .bland hn.bland (Parenthesized.arranged h)
  | .literal h => .bland (bland_of_notMem_signs (notMem_signs_of_literal h)) .nil
  | .reference _ hw => .bland hw.bland .nil

theorem Parenthesized.arranged {inside : Bool} {ts : List Token} {vs : List Value} :
    Parenthesized Expression ts vs → Arranged inside ts
  | .none hl hr => ClosesList.arranged hl ⟨[], _, rfl, .nil, hr⟩
  | .some hl h => (Items.closesList h).arranged hl

theorem Items.closesList {ts : List Token} {vs : List Value} : Items Expression ts vs → ClosesList ts
  | .last h hr => ⟨_, _, rfl, h.arranged, hr⟩
  | .more h hc hs => .more h.arranged hc (Items.closesList hs)

end

private theorem Items.closesList_parameters {ts : List Token} {ps : List Parameter}
    (h : Items DeclaredParameter ts ps) : ClosesList ts := by
  induction h with
  | last h hr => exact ⟨_, _, rfl, arranged_of_bland h.bland, hr⟩
  | more h hc _ ih => exact .more (arranged_of_bland h.bland) hc ih

theorem Parenthesized.arranged_parameters {ts : List Token} {ps : List Parameter}
    (h : Parenthesized DeclaredParameter ts ps) : Arranged false ts := by
  cases h with
  | none hl hr => exact ClosesList.arranged hl ⟨[], _, rfl, .nil, hr⟩
  | some hl h => exact h.closesList_parameters.arranged hl

theorem Step.arranged {ts : List Token} {v : Value} (h : Step ts v) : Arranged false ts := by
  obtain ⟨a, b, semicolon, rfl, ha, hb, he⟩ := h.exists_bland
  exact .bland ha (.bland hb (arranged_semicolon he))

theorem Terminated.arranged {ts : List Token} {v : Value} (h : Terminated ts v) :
    Arranged false ts := by
  cases h with
  | step h => exact h.arranged
  | plain h he => exact h.arranged.append_outside (arranged_semicolon he)

theorem Initializer.arranged {constant : Bool} {ts : List Token} {value? : Option Value}
    (h : Initializer constant ts value?) : Arranged false ts := by
  cases h with
  | none he => exact arranged_semicolon he
  | some he h => exact .bland (bland_of_eq he (by decide)) h.arranged

theorem Modified.bland {ms : List Token} {m : Modifiers} (h : Modified ms m) :
    ∀ t ∈ ms, Bland t :=
  fun t ht => (h.word t ht).1.bland

mutual

theorem Sentence.arranged {ts : List Token} {element? : Option Element} :
    Sentence ts element? → Arranged false ts
  | .empty he => arranged_semicolon he
  | .step h => h.arranged
  | .returned hw h => .bland (bland_of_eq hw (by decide)) h.arranged
  | .call hn _ h he => .bland hn.bland (h.arranged.append_outside (arranged_semicolon he))
  | .group hl hl' h hr' hr he => by
    have hgroup : Plain _ _ := .group hl (.plain (.group hl' h hr')) hr
    have harranged := (Terminated.plain hgroup he).arranged
    simpa using harranged
  | .declared hm ht _ _ hn h _ => by
    obtain ⟨hword, hts⟩ := List.forall_mem_cons.1 ht.bland
    exact .append_bland hm.bland (.bland hword (.append_bland hts (.bland hn.bland h.arranged)))
  | .function hm hf hn hp ht hl h hr => by
    have hbody := Arranged.append_outside h.arranged (.bland (bland_of_eq hr (by decide)) .nil)
    have hblock := Arranged.bland (bland_of_eq hl (by decide)) hbody
    have htail := hp.arranged_parameters.append_outside (.append_bland ht.bland hblock)
    exact .append_bland hm.bland (.bland (bland_of_eq hf (by decide)) (.bland hn.bland htail))
  | .assigned hn _ _ he h => .bland hn.bland (.bland (bland_of_eq he (by decide)) h.arranged)

private theorem Program.arranged {ts : List Token} {elements : List Element} :
    Program ts elements → Arranged false ts
  | .nil => .nil
  | .cons h hs => h.arranged.append_outside hs.arranged

end

/-- The semicolons in parentheses are the ones of steps that stand there. -/
theorem Arranged.between_iff {ts before behind : List Token} {semicolon : Token}
    (h : Arranged false ts) (hts : ts = before ++ semicolon :: behind)
    (he : semicolon.value = ";") :
    Between before semicolon behind ↔ EndsStepInside before semicolon behind := by
  have hplaced := h.placed he hts
  have hmatched := h.matched
  rw [hts] at hmatched
  rw [hmatched.between_iff (by simp [he]) (by simp [he])]
  cases hplaced with
  | nested hpos h => exact ⟨fun _ => h, fun _ => hpos⟩
  | outside hzero hnext =>
    refine ⟨fun hpos => by omega, ?_⟩
    rintro ⟨ahead, step, v, sign, rest, -, -, rfl, hsign⟩
    obtain ⟨hr, hc⟩ := hnext sign rfl
    exact absurd hsign (not_or.2 ⟨hr, hc⟩)

end Grammar

/-- The parentheses of a program are balanced, and a semicolon stands between them exactly if it
ends a step that is closed off by a parenthesis or a comma. -/
theorem Settings.parse_semicolons (file : Option String) (verbose : Bool) {tokens : List Token}
    (source : String) {parsed : Parsed}
    (h : parse { file, verbose } tokens source = .ok parsed) :
    Matched tokens ∧ ∀ before semicolon behind, tokens = before ++ semicolon :: behind →
      semicolon.value = ";" →
        (Between before semicolon behind ↔ EndsStepInside before semicolon behind) := by
  obtain ⟨elements, hprogram, -⟩ := parse_eq_ok_iff_program.1 h
  have harranged := hprogram.arranged
  exact ⟨harranged.matched, fun _ _ _ htokens he => harranged.between_iff htokens he⟩

/-- A step that is a group of its own, in a call behind a step that is an argument, and a step that
is a statement. -/
theorem Settings.parse_semicolons_nested :
    let before := ["f", "(", "x", "++", ";", ",", "(", "--", "y"].map (Token.mk {})
    let between := [")", ")", ";", "z", "++"].map (Token.mk {})
    let semicolon : Token := ⟨{}, ";"⟩
    let tokens := before ++ semicolon :: (between ++ [semicolon])
    ∃ parsed, parse {} tokens "" = .ok parsed ∧ Matched tokens ∧
      Between before semicolon (between ++ [semicolon]) ∧
      ¬Between (before ++ semicolon :: between) semicolon [] := by
  intro before between semicolon tokens
  have hlength : (parse {} tokens "").toOption.map (·.root.elements.length) = some 2 := by
    decide +kernel
  obtain ⟨_, hparse, -⟩ := exists_parse_of_map_eq hlength
  obtain ⟨hmatched, hsemicolons⟩ := parse_semicolons none false "" hparse
  have hstep : Step [⟨{}, "--"⟩, ⟨{}, "y"⟩, semicolon] _ := .before (.inr rfl) rfl rfl
  refine ⟨_, hparse, hmatched, ?_, fun hlast => ?_⟩
  · rw [hsemicolons before semicolon (between ++ [semicolon]) rfl rfl]
    exact ⟨before.take 7, _, _, _, _, rfl, hstep, rfl, .inl rfl⟩
  · rw [hsemicolons (before ++ semicolon :: between) semicolon [] rfl rfl] at hlast
    obtain ⟨_, _, _, _, _, -, -, hnil, -⟩ := hlast
    cases hnil

/-- The semicolon of a step is taken for a part of an argument. -/
theorem Settings.parse_semicolon_in_call :
    ∃ tokenized parsed, tokenize "f(x++;);" none = .ok tokenized ∧
      parse {} tokenized.tokens "f(x++;);" = .ok parsed ∧
      ∃ before semicolon behind, tokenized.tokens = before ++ semicolon :: behind ∧
        semicolon.value = ";" ∧ Between before semicolon behind := by
  have htokens : tokenize "f(x++;);" none = .ok ⟨none,
      [⟨⟨0, 0⟩, "f"⟩, ⟨⟨0, 1⟩, "("⟩, ⟨⟨0, 2⟩, "x"⟩, ⟨⟨0, 3⟩, "++"⟩, ⟨⟨0, 5⟩, ";"⟩, ⟨⟨0, 6⟩, ")"⟩,
        ⟨⟨0, 7⟩, ";"⟩]⟩ := by
    decide +kernel
  have hinner : Matched [⟨⟨0, 2⟩, "x"⟩, ⟨⟨0, 3⟩, "++"⟩, ⟨⟨0, 5⟩, ";"⟩] :=
    .other (by decide) (by decide) (.other (by decide) (by decide)
      (.other (by decide) (by decide) .nil))
  refine ⟨_, _, htokens, rfl, [⟨⟨0, 0⟩, "f"⟩, ⟨⟨0, 1⟩, "("⟩, ⟨⟨0, 2⟩, "x"⟩, ⟨⟨0, 3⟩, "++"⟩],
    ⟨⟨0, 5⟩, ";"⟩, [⟨⟨0, 6⟩, ")"⟩, ⟨⟨0, 7⟩, ";"⟩], rfl, rfl, ?_⟩
  exact ⟨[⟨⟨0, 0⟩, "f"⟩], ⟨⟨0, 1⟩, "("⟩, [⟨⟨0, 2⟩, "x"⟩, ⟨⟨0, 3⟩, "++"⟩], [], ⟨⟨0, 6⟩, ")"⟩,
    [⟨⟨0, 7⟩, ";"⟩], rfl, rfl, rfl, hinner, rfl⟩

end Script
