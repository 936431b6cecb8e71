import Script.Program
import Script.Proofs.Grammar.Types
/-!
# Looking ahead for a declaration

Where a statement has no modifier and no assignment sign behind its second token, it is taken for a
declaration by its front: a token, array suffixes, one token more, and a semicolon or an assignment
sign. The token more stands where a declaration has its name, but it may be any token. So an
assignment sign is taken for a name where a semicolon follows it, and only there.
-/

namespace Script

open Script.Parser

namespace Grammar

/-- The tokens begin like a declaration whose name is the token `name`: with one token and array
suffixes, and a semicolon or an assignment sign behind the name. -/
inductive Fronts (name : Token) : List Token → Prop
  | intro {word sign : Token} {ts rest : List Token} {s : String} (hs : Suffixes ts s)
      (hname : name.value ≠ "[]") (hsign : sign.value = ";" ∨ sign.value = "=") :
      Fronts name (word :: (ts ++ name :: sign :: rest))

variable {tokens ts rest : List Token} {name equals : Token} {c : Cursor}

/-! ### What the front tells -/

theorem Fronts.drop_eq (h : Fronts name tokens) :
    ∃ sign rest, (sign.value = ";" ∨ sign.value = "=") ∧
      tokens.drop (1 + suffixLength (tokens.drop 1)) = name :: sign :: rest := by
  cases h with
  | @intro word sign ts rest s hs hname hsign =>
    have hsplit : ¬(name.is "[" && sign.is "]") := by
      rcases hsign with hsign | hsign <;> simp [Token.is, hsign]
    have hnone : suffixLength (name :: sign :: rest) = 0 := by
      have hjoined : ¬name.is "[]" := fun h => hname (Token.is_iff.1 h)
      rw [suffixLength, if_neg hjoined]
      exact if_neg hsplit
    refine ⟨sign, rest, hsign, ?_⟩
    rw [List.drop_succ_cons, List.drop_zero, hs.suffixLength_add, hnone, Nat.add_zero, Nat.add_comm,
      List.drop_succ_cons, List.drop_left]

theorem Fronts.unique {other : Token} (h : Fronts name tokens) (h' : Fronts other tokens) :
    other = name := by
  obtain ⟨_, _, -, hdrop⟩ := h.drop_eq
  obtain ⟨_, _, -, hdrop'⟩ := h'.drop_eq
  exact (List.cons.inj (hdrop'.symm.trans hdrop)).1

private theorem declares_iff_fronts (hsecond : startsWith (tokens.drop 2) "=" = false)
    (hmodifier : tokens.head?.any isModifier = false) :
    declares tokens = true ↔ ∃ name, Fronts name tokens := by
  rw [declares, hsecond, hmodifier, Bool.false_or, Bool.false_or]
  constructor
  · intro hdeclares
    cases tokens with
    | nil => cases hdeclares
    | cons word behind =>
      obtain ⟨ts, s, more, rfl, hs, hlength, hmore⟩ := exists_suffixes behind
      have hdrop : (word :: (ts ++ more)).drop (1 + suffixLength ((word :: (ts ++ more)).drop 1)) =
          more := by
        rw [List.drop_succ_cons, List.drop_zero, hlength, Nat.add_comm, List.drop_succ_cons,
          List.drop_left]
      rw [hdrop] at hdeclares
      cases more with
      | nil => cases hdeclares
      | cons name behind =>
        cases behind with
        | nil => cases hdeclares
        | cons sign rest =>
          refine ⟨name, .intro hs (fun hname => ?_) (by simpa using hdeclares)⟩
          rw [suffixLength_joined hname] at hmore
          cases hmore
  · rintro ⟨name, h⟩
    obtain ⟨sign, rest, hsign, hdrop⟩ := h.drop_eq
    rw [hdrop]
    simpa using hsign

/-! ### Assignments -/

/-- An assignment is taken for a declaration exactly where its value is missing. -/
theorem declares_of_assignment (hsecond : startsWith rest "=" = false)
    (hmodifier : isModifier name = false) (he : equals.value = "=") :
    declares (name :: equals :: rest) = startsWith rest ";" := by
  have hlength : suffixLength (equals :: rest) = 0 := by
    refine suffixLength_eq_zero fun t ht => ?_
    obtain rfl : equals = t := by simpa using ht
    simp [he]
  simp [declares, hmodifier, hlength, hsecond]

def unnamed (equals : Token) : Fault where
  kind := .invalidIdentifier "=" .invalidCharacters
  position := equals.position

private theorem run_declaration_of_sign {rules : List Rule} {p : Parser (Option Element)}
    (hc : c.rest = name :: equals :: rest) (hn : Word name)
    (hd : name.value ∉ declarationWords) (he : equals.value = "=") :
    (declaration rules p).run c =
      .error (unnamed equals) := by
  obtain ⟨hmodifier, hfunc⟩ := notMem_declarationWords_iff.1 hd
  have hnone : modifiers.run c = .ok (⟨false, false⟩, c) := by
    rw [modifiers, run_bind_of_ok _ (run_upcoming c), hc, modifiersBehind, hmodifier]
    rfl
  have hsees : startsWith c.rest "func" = false := by
    rw [hc]
    exact startsWith_cons_eq_false fun h => hfunc (functions_iff.2 h)
  obtain ⟨d, hpass, hrest⟩ :=
    Cursor.exists_passes (show c.rest = [name] ++ (equals :: rest) from hc)
  have htype : typeName.run c = .ok (name.value ++ "", d) := by
    refine (TypeName.intro hn .nil).reads c d hpass ?_
    rw [hrest]
    refine suffixLength_eq_zero fun t ht => ?_
    obtain rfl : equals = t := by simpa using ht
    simp [he]
  have hname : identifier.run d =
      .error (unnamed equals) := by
    have htoken : token.run d = .ok (equals, d.advance 1) :=
      run_token_eq_ok.2 (Cursor.passes_one hrest)
    rw [identifier, run_bind_of_ok _ htoken, he]
    rfl
  rw [declaration, run_bind_of_ok _ (run_here c), run_bind_of_ok _ hnone,
    run_bind_of_ok _ (run_sees "func" c), hsees]
  simp only [Bool.false_eq_true, if_false]
  rw [run_bind_of_ok _ htype, run_bind_of_error _ hname]

/-- An assignment is read as one if anything but a semicolon stands for its value. Otherwise its
sign is blamed as the name of a declaration. -/
theorem run_element_of_assignment (hc : c.rest = name :: equals :: rest) (hn : Word name)
    (hs : name.value ∉ statementWords) (hd : name.value ∉ declarationWords)
    (he : equals.value = "=") (hsecond : startsWith rest "=" = false) :
    (element Rule.defaults).run c =
      if startsWith rest ";" then
        .error (unnamed equals)
      else (some <$> Element.assignment <$> assignment Rule.defaults).run c := by
  obtain ⟨hmodifier, hfunc⟩ := notMem_declarationWords_iff.1 hd
  rw [Ne, functions_iff] at hfunc
  have hdeclares := declares_of_assignment hsecond hmodifier he
  have hparenthesis : startsWith (equals :: rest) "(" = false :=
    startsWith_cons_eq_false (by simp [he])
  have hsemicolon : name.is ";" = false := beq_eq_false_iff_ne.2 (hn.ne (by decide))
  have hnone : Rule.stepApplies c.rest = false := by
    rw [hc]
    exact stepApplies_of_second (foreign_of_eq he (by decide))
  rw [element_eq, elementBody, run_bind_of_ok _ (run_upcoming c), hc]
  simp only [hsemicolon, Bool.false_eq_true, if_false]
  rw [run_bind_of_ok _ (run_byRule_of_not hnone)]
  by_cases hmissing : startsWith rest ";" = true
  · rw [hmissing] at hdeclares
    rw [if_pos hmissing]
    simp only [statement_of_declares hs hparenthesis hdeclares, bind_assoc]
    exact run_bind_of_error _ (run_declaration_of_sign hc hn hd he)
  · rw [Bool.eq_false_iff.2 hmissing] at hdeclares
    rw [if_neg hmissing]
    simp only [statement_of_assignment hs hfunc hparenthesis hdeclares (startsWith_cons_eq_true he),
      map_eq_pure_bind]

/-- Without a modifier, and without an assignment sign behind the second token, a statement is taken
for a declaration exactly if it begins with a type, one token in the place of a name, and a
semicolon or an assignment sign. For an assignment this is so where its value is missing, and then
its sign is blamed as a name; in any other case it is read as an assignment. -/
theorem declares_by_front {c : Cursor} (hsecond : startsWith (c.rest.drop 2) "=" = false)
    (hmodifier : c.rest.head?.any isModifier = false) :
    (declares c.rest = true ↔ ∃ name, Fronts name c.rest) ∧
      (∀ name other, Fronts name c.rest → Fronts other c.rest → other = name) ∧
      ∀ name equals rest, c.rest = name :: equals :: rest → equals.value = "=" →
        declares c.rest = startsWith rest ";" ∧
          (Word name → name.value ∉ statementWords → name.value ∉ declarationWords →
            (element Rule.defaults).run c =
              if startsWith rest ";" then
                .error (unnamed equals)
              else (some <$> Element.assignment <$> assignment Rule.defaults).run c) := by
  refine ⟨declares_iff_fronts hsecond hmodifier, fun name other h h' => h.unique h', ?_⟩
  intro name equals rest hc he
  have hbehind : startsWith rest "=" = false := by rwa [hc] at hsecond
  refine ⟨?_, fun hn hs hd => run_element_of_assignment hc hn hs hd he hbehind⟩
  rw [hc] at hmodifier ⊢
  exact declares_of_assignment hbehind hmodifier he

/-- A type with suffixes of both spellings, and in the place of the name a token that is none. -/
theorem declares_by_front_number :
    let name : Token := ⟨⟨0, 9⟩, "9x"⟩
    let tokens : List Token :=
      [⟨⟨0, 0⟩, "int"⟩, ⟨⟨0, 3⟩, "[]"⟩, ⟨⟨0, 5⟩, "["⟩, ⟨⟨0, 7⟩, "]"⟩, name, ⟨⟨0, 11⟩, ";"⟩]
    startsWith (tokens.drop 2) "=" = false ∧ tokens.head?.any isModifier = false ∧
      declares tokens = true ∧ ∀ other, Fronts other tokens ↔ other = name := by
  intro name tokens
  obtain ⟨hfronts, hunique, -⟩ := declares_by_front (c := .start tokens) rfl rfl
  have hname : Fronts name tokens :=
    .intro (.joined rfl (.split rfl rfl .nil)) (by decide) (.inl rfl)
  refine ⟨rfl, rfl, hfronts.2 ⟨name, hname⟩, fun other => ⟨hunique name other hname, ?_⟩⟩
  rintro rfl
  exact hname

/-- An assignment without its value is told to have a name that is none. -/
theorem declares_missing_value :
    let tokens : List Token := [⟨⟨0, 0⟩, "x"⟩, ⟨⟨0, 2⟩, "="⟩, ⟨⟨0, 4⟩, ";"⟩]
    tokenize "x = ;" none = .ok ⟨none, tokens⟩ ∧
      startsWith (tokens.drop 2) "=" = false ∧ tokens.head?.any isModifier = false ∧
      declares tokens = true ∧ (¬∃ name, Fronts name tokens ∧ Word name) ∧
      Settings.parse {} tokens "x = ;" =
        .error ⟨.invalidIdentifier "=" .invalidCharacters, ⟨0, 2⟩, "x = ;", none⟩ := by
  intro tokens
  refine ⟨rfl, rfl, rfl, rfl, ?_, rfl⟩
  rintro ⟨name, hfronts, hword⟩
  have hsign : Fronts ⟨⟨0, 2⟩, "="⟩ tokens := .intro .nil (by decide) (.inl rfl)
  rw [hsign.unique hfronts] at hword
  cases hword

end Grammar

end Script
