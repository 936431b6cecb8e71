import Script.Proofs.Grammar
/-!
# Words and signs

Identifiers and literals are never taken for a sign of the grammar, and the keywords that decide
what a statement is are told by their texts.
-/

namespace Script

namespace Keyword

theorem any_ofText?_iff {text : String} {p : Keyword → Bool} :
    (ofText? text).any p = true ↔ ∃ k : Keyword, k.text = text ∧ p k = true := by
  simp only [Option.any_eq_true, ofText?_eq_some_iff]

end Keyword

namespace Grammar

open Script.Parser

theorem returns_iff {text : String} :
    Keyword.ofText? text = some .returnWord ↔ text = "return" := by
  rw [Keyword.ofText?_eq_some_iff]
  exact eq_comm

theorem functions_iff {text : String} :
    Keyword.ofText? text = some .funcWord ↔ text = "func" := by
  rw [Keyword.ofText?_eq_some_iff]
  exact eq_comm

private theorem controls_iff {text : String} :
    (Keyword.ofText? text).any (·.isStatement) = true ↔
      text ∈ ["if", "else", "for", "while"] := by
  rw [Keyword.any_ofText?_iff]
  constructor
  · rintro ⟨k, rfl, hk⟩
    cases k <;> simp_all [Keyword.isStatement, Keyword.text]
  · intro h
    simp only [List.mem_cons, List.not_mem_nil, or_false] at h
    rcases h with rfl | rfl | rfl | rfl
    · exact ⟨.ifWord, rfl, rfl⟩
    · exact ⟨.elseWord, rfl, rfl⟩
    · exact ⟨.forWord, rfl, rfl⟩
    · exact ⟨.whileWord, rfl, rfl⟩

theorem isModifier_iff {token : Token} :
    isModifier token = true ↔ token.value = "export" ∨ token.value = "const" := by
  rw [isModifier, Keyword.any_ofText?_iff]
  constructor
  · rintro ⟨k, hk, hm⟩
    cases k <;> simp_all [Keyword.isModifier, Keyword.text]
  · rintro (h | h)
    · exact ⟨.exportWord, h.symm, rfl⟩
    · exact ⟨.constWord, h.symm, rfl⟩

theorem notMem_statementWords_iff {text : String} :
    text ∉ statementWords ↔
      Keyword.ofText? text ≠ some .returnWord ∧
        (Keyword.ofText? text).any (·.isStatement) = false := by
  rw [Ne, returns_iff, ← Bool.not_eq_true, controls_iff, statementWords, List.mem_cons, not_or]

theorem notMem_declarationWords_iff {token : Token} :
    token.value ∉ declarationWords ↔
      isModifier token = false ∧ Keyword.ofText? token.value ≠ some .funcWord := by
  rw [Ne, functions_iff, ← Bool.not_eq_true, isModifier_iff]
  simp only [declarationWords, List.mem_cons, List.not_mem_nil, or_false, not_or, and_assoc]

/-! ### Signs -/

def signs : List String :=
  [";", ",", "(", ")", "\x7b", "\x7d", "=", "++", "--", "[", "]", "[]"]

private theorem isValid_of_mem_signs {text : String} (h : text ∈ signs) :
    Identifier.isValid text = false := by
  revert text
  decide

private theorem read_of_mem_signs {text : String} (h : text ∈ signs) :
    Literal.read text = .error (.unknownLiteral text) := by
  simp only [signs, List.mem_cons, List.not_mem_nil, or_false] at h
  rcases h with rfl | rfl | rfl | rfl | rfl | rfl | rfl | rfl | rfl | rfl | rfl | rfl <;> rfl

theorem Word.notMem_signs {token : Token} (h : Word token) : token.value ∉ signs := by
  intro hm
  rw [Word, isValid_of_mem_signs hm] at h
  cases h

theorem notMem_signs_of_literal {token : Token} {literal : Literal}
    (h : Literal.ofToken token = .ok literal) : token.value ∉ signs := by
  intro hm
  rw [Literal.ofToken, read_of_mem_signs hm] at h
  cases h

theorem ne_of_notMem_signs {token : Token} {text : String} (h : token.value ∉ signs)
    (ht : text ∈ signs) : token.value ≠ text :=
  fun he => h (he ▸ ht)

theorem Word.ne {token : Token} {text : String} (h : Word token) (ht : text ∈ signs) :
    token.value ≠ text :=
  ne_of_notMem_signs h.notMem_signs ht

theorem startsWith_cons_eq_false {token : Token} {rest : List Token} {text : String}
    (h : token.value ≠ text) : startsWith (token :: rest) text = false := by
  rw [startsWith_cons, Token.is, beq_eq_false_iff_ne]
  exact h

theorem startsWith_cons_eq_true {token : Token} {rest : List Token} {text : String}
    (h : token.value = text) : startsWith (token :: rest) text = true := by
  rw [startsWith_cons, Token.is_iff]
  exact h

/-! ### Names -/

def brackets : List String := ["[", "]", "[]"]

def Nominal (t : Token) : Prop := Word t ∨ t.value ∈ brackets

private theorem nominal_of_eq {t : Token} {text : String} (h : t.value = text)
    (ht : text ∈ brackets) : Nominal t :=
  .inr (h ▸ ht)

private theorem Suffixes.nominal {ts : List Token} {s : String} (h : Suffixes ts s) :
    ∀ t ∈ ts, Nominal t := by
  induction h with
  | nil => simp
  | joined ht _ ih => exact List.forall_mem_cons.2 ⟨nominal_of_eq ht (by decide), ih⟩
  | split hl hr _ ih =>
    exact List.forall_mem_cons.2 ⟨nominal_of_eq hl (by decide),
      List.forall_mem_cons.2 ⟨nominal_of_eq hr (by decide), ih⟩⟩

theorem TypeName.nominal {ts : List Token} {s : String} (h : TypeName ts s) :
    ∀ t ∈ ts, Nominal t := by
  cases h with
  | intro hw hs => exact List.forall_mem_cons.2 ⟨.inl hw, hs.nominal⟩

theorem DeclaredParameter.nominal {ts : List Token} {p : Parameter} (h : DeclaredParameter ts p) :
    ∀ t ∈ ts, Nominal t := by
  cases h with
  | intro ht hn => exact List.forall_mem_append.2 ⟨ht.nominal, by simpa using .inl hn⟩

end Grammar

end Script
