import Script.Proofs.Recovery.Gathered
import Script.Proofs.Writing
/-!
# Well formed trees

What a reader of trees may rely on: names and types are spelled as the language spells them, calls
of built in operations have the arguments of these operations and stand where they may, the text of
a literal goes with its kind, and there is no control flow. Every tree that is read is well formed,
whether or not errors were passed over.
-/

namespace Script

/-! ### The nodes -/

def IsTypeName (text : String) : Prop :=
  ∃ base n, Identifier.isValid base = true ∧ text = base ++ suffixes n

def stepOperations : List String :=
  ["preincrement", "predecrement", "postincrement", "postdecrement"]

/-- A well formed value, as it may stand in any place for a value. Of the built in operations only
those on variables have a value. -/
inductive Value.WellFormed : Value → Prop
  | literal {l : Literal} (h : l.Writable) : WellFormed (.literal l)
  | reference {r : Reference} (h : Identifier.isValid r.name = true) : WellFormed (.reference r)
  | call {name : String} {arguments : List Value} {position : Position}
      (hn : Identifier.isValid name = true) (h : ∀ v ∈ arguments, WellFormed v) :
      WellFormed (.call ⟨name, false, arguments, position⟩)
  | step {operation : String} {r : Reference} {position : Position}
      (ho : operation ∈ stepOperations) (h : Identifier.isValid r.name = true) :
      WellFormed (.call ⟨operation, true, [.reference r], position⟩)

def Parameter.WellFormed (p : Parameter) : Prop :=
  Identifier.isValid p.name = true ∧ IsTypeName p.type

/-- A well formed element, with everything in it. A returned value stands as an element only. -/
inductive Element.WellFormed : Element → Prop
  | function {name returnType : String} {exported : Bool} {position : Position}
      {parameters : List Parameter} {body : List Element} (hn : Identifier.isValid name = true)
      (hp : ∀ p ∈ parameters, p.WellFormed) (ht : IsTypeName returnType)
      (h : ∀ e ∈ body, WellFormed e) :
      WellFormed (.declaration ⟨name, exported, position, .function ⟨returnType, parameters, body⟩⟩)
  | constant {name type : String} {exported : Bool} {position : Position} {v : Value}
      (hn : Identifier.isValid name = true) (ht : IsTypeName type) (h : v.WellFormed) :
      WellFormed (.declaration ⟨name, exported, position, .constant type v⟩)
  | changeable {name type : String} {exported : Bool} {position : Position}
      {value? : Option Value} (hn : Identifier.isValid name = true) (ht : IsTypeName type)
      (h : ∀ v ∈ value?, v.WellFormed) :
      WellFormed (.declaration ⟨name, exported, position, .variable type value?⟩)
  | assignment {name : String} {v : Value} {position : Position}
      (hn : Identifier.isValid name = true) (h : v.WellFormed) :
      WellFormed (.assignment ⟨name, v, position⟩)
  | returned {v : Value} {position : Position} (h : v.WellFormed) :
      WellFormed (.value (.call ⟨"return", true, [v], position⟩))
  | value {v : Value} (h : v.WellFormed) : WellFormed (.value v)

/-! ### Literals -/

namespace Literal

private theorem isNumber_repr (n : Nat) : IsNumber n.repr := by
  constructor
  · intro hempty
    refine Nat.toDigits_ne_nil (n := n) (b := 10) ?_
    rw [← Nat.toList_repr, hempty, String.toList_empty]
  · intro c hc
    rw [Nat.toList_repr] at hc
    exact Nat.isDigit_of_mem_toDigits (by decide) (by decide) hc

private theorem suffixed_kind (text : List Char) :
    (suffixed text).1 = .int ∨ (suffixed text).1 = .float ∨ (suffixed text).1 = .double := by
  unfold suffixed
  split <;> simp

private theorem number_eq_ok {value text : String} {kind : LiteralKind}
    (h : number value = .ok (kind, text)) :
    IsNumber text ∧ (kind = .int ∨ kind = .float ∨ kind = .double) := by
  rcases number_eq_ok_cases h with ⟨base, digits, n, -, -, rfl, rfl⟩ | ⟨digits, hkind, hne, hd, rfl⟩
  · exact ⟨isNumber_repr n, .inl rfl⟩
  · constructor
    · unfold IsNumber
      rw [String.toList_ofList]
      exact ⟨fun hempty => hne (String.ofList_eq_empty_iff.1 hempty), hd⟩
    · have hkinds := suffixed_kind value.toList
      rw [hkind] at hkinds
      exact hkinds

/-- Whatever is read as a literal has a text of its kind. -/
theorem writable_of_ofToken {token : Token} {literal : Literal}
    (h : ofToken token = .ok literal) : literal.Writable := by
  unfold ofToken at h
  split at h
  · next kind text hread =>
    cases h
    unfold read at hread
    split at hread
    · cases hread
    · split at hread
      · cases hread
        exact trivial
      · split at hread
        · obtain ⟨hnumber, rfl | rfl | rfl⟩ := number_eq_ok hread <;> exact hnumber
        · split at hread
          · next hkeyword =>
            cases hread
            exact .inl (Keyword.ofText?_eq_some_iff.1 hkeyword).symm
          · next hkeyword =>
            cases hread
            exact .inr (Keyword.ofText?_eq_some_iff.1 hkeyword).symm
          · next hkeyword =>
            cases hread
            exact (Keyword.ofText?_eq_some_iff.1 hkeyword).symm
          · cases hread
  · cases h

end Literal

/-! ### Phrases -/

namespace Grammar

private theorem Suffixes.exists_eq {ts : List Token} {s : String} (h : Suffixes ts s) :
    ∃ n, s = suffixes n := by
  induction h with
  | nil => exact ⟨0, rfl⟩
  | joined _ _ ih | split _ _ _ ih =>
    obtain ⟨n, rfl⟩ := ih
    exact ⟨n + 1, rfl⟩

theorem TypeName.isTypeName {ts : List Token} {type : String} (h : TypeName ts type) :
    IsTypeName type := by
  cases h with
  | intro hw hs =>
    obtain ⟨n, rfl⟩ := hs.exists_eq
    exact ⟨_, n, hw, rfl⟩

theorem Step.wellFormed {ts : List Token} {v : Value} (h : Step ts v) : v.WellFormed := by
  cases h with
  | before _ hn _ => exact .step (by split <;> decide) hn
  | behind hn _ _ => exact .step (by split <;> decide) hn

theorem DeclaredParameter.wellFormed {ts : List Token} {p : Parameter}
    (h : DeclaredParameter ts p) : p.WellFormed := by
  cases h with
  | intro ht hn => exact ⟨hn, ht.isTypeName⟩

section

variable {α : Type} {item : List Token → α → Prop} {P : α → Prop}

private theorem Items.forall_mem (hitem : ∀ ts a, item ts a → P a) {ts : List Token} {as : List α}
    (h : Items item ts as) : ∀ a ∈ as, P a := by
  induction h with
  | last h _ => exact List.forall_mem_singleton.2 (hitem _ _ h)
  | more h _ _ ih => exact List.forall_mem_cons.2 ⟨hitem _ _ h, ih⟩

theorem Parenthesized.forall_mem (hitem : ∀ ts a, item ts a → P a) {ts : List Token}
    {as : List α} (h : Parenthesized item ts as) : ∀ a ∈ as, P a := by
  cases h with
  | none => exact List.forall_mem_nil P
  | some _ h => exact h.forall_mem hitem

end

mutual

theorem Expression.wellFormed {ts : List Token} {v : Value} : Expression ts v → v.WellFormed
  | .step h => h.wellFormed
  | .plain h => h.wellFormed

private theorem Plain.wellFormed {ts : List Token} {v : Value} : Plain ts v → v.WellFormed
  | .group _ h _ => h.wellFormed
  | .call hn h => .call hn (Parenthesized.wellFormed h)
  | .literal h => .literal (Literal.writable_of_ofToken h)
  | .reference _ hw => .reference hw

theorem Parenthesized.wellFormed {ts : List Token} {vs : List Value} :
    Parenthesized Expression ts vs → ∀ v ∈ vs, v.WellFormed
  | .none _ _ => List.forall_mem_nil _
  | .some _ h => Items.wellFormed h

theorem Items.wellFormed {ts : List Token} {vs : List Value} :
    Items Expression ts vs → ∀ v ∈ vs, v.WellFormed
  | .last h _ => List.forall_mem_singleton.2 h.wellFormed
  | .more h _ hs => List.forall_mem_cons.2 ⟨h.wellFormed, Items.wellFormed hs⟩

end

theorem Terminated.wellFormed {ts : List Token} {v : Value} (h : Terminated ts v) :
    v.WellFormed := by
  cases h with
  | step h => exact h.wellFormed
  | plain h _ => exact h.wellFormed

private theorem Initializer.wellFormed {constant : Bool} {ts : List Token} {value? : Option Value}
    (h : Initializer constant ts value?) : ∀ v ∈ value?, v.WellFormed := by
  cases h with
  | none _ => simp
  | some _ h => simpa using h.wellFormed

/-! ### Sentences -/

theorem Bound.wellFormed {name type : String} {exported constant : Bool} {position : Position}
    {ts : List Token} {value? : Option Value} {bound : Binding Element}
    (hb : Bound type constant value? bound) (hn : Identifier.isValid name = true)
    (ht : IsTypeName type) (h : Initializer constant ts value?) :
    (Element.declaration ⟨name, exported, position, bound⟩).WellFormed := by
  have hvalue := h.wellFormed
  cases hb with
  | constant v => exact .constant hn ht (hvalue v rfl)
  | changeable value? => exact .changeable hn ht hvalue

mutual

private theorem Sentence.wellFormed {ts : List Token} {element? : Option Element} :
    Sentence ts element? → ∀ e ∈ element?, e.WellFormed
  | .empty _ => by simp
  | .step h => by simpa using Element.WellFormed.value h.wellFormed
  | .returned _ h => by simpa using Element.WellFormed.returned h.wellFormed
  | .call hn _ h _ => by
    simpa using Element.WellFormed.value (.call hn (Parenthesized.wellFormed h))
  | .group _ _ h _ _ _ => by simpa using Element.WellFormed.value h.wellFormed
  | .declared _ ht _ _ hn h hb => by simpa using hb.wellFormed hn ht.isTypeName h
  | .function _ _ hn hp ht _ h _ => by
    have hparameters := hp.forall_mem fun _ _ hp => DeclaredParameter.wellFormed hp
    simpa using Element.WellFormed.function hn hparameters ht.isTypeName h.wellFormed
  | .assigned hn _ _ _ h => by simpa using Element.WellFormed.assignment hn h.wellFormed

theorem Program.wellFormed {ts : List Token} {elements : List Element} :
    Program ts elements → ∀ e ∈ elements, e.WellFormed
  | .nil => List.forall_mem_nil _
  | .cons h hs => by
    refine List.forall_mem_append.2 ⟨fun e he => h.wellFormed e ?_, hs.wellFormed⟩
    exact Option.mem_toList.1 he

end

end Grammar

open Grammar in
/-- Every tree that is read is well formed. -/
theorem Settings.parse_wellFormed (file : Option String) (recover verbose : Bool)
    {tokens : List Token} {source : String} {parsed : Parsed}
    (h : parse { file, recover, verbose } tokens source = .ok parsed) :
    ∀ e ∈ parsed.root.elements, e.WellFormed :=
  (gathered_of_parse h).forall_mem fun _ _ hs => hs.wellFormed

/-- A constant with a step among the arguments of its value, a malformed statement, and a function
that returns a step. -/
theorem Settings.parse_wellFormed_recovering :
    ∃ parsed, parse { recover := true }
        (["const", "int", "[", "]", "[]", "xs", "=", "f", "(", "y", "++", ";", ",", "0x1F", ")", ";",
          "5", ";",
          "func", "g", "(", "string", "[]", "s", ")", "void", "\x7b", "return", "--", "x", ";",
          "\x7d"].map (Token.mk {})) "" = .ok parsed ∧
      parsed.root.elements.length = 2 ∧ ∀ e ∈ parsed.root.elements, e.WellFormed := by
  have hparse : parse { recover := true }
      (["const", "int", "[", "]", "[]", "xs", "=", "f", "(", "y", "++", ";", ",", "0x1F", ")", ";",
        "5", ";",
        "func", "g", "(", "string", "[]", "s", ")", "void", "\x7b", "return", "--", "x", ";",
        "\x7d"].map (Token.mk {})) "" = .ok _ := rfl
  exact ⟨_, hparse, rfl, parse_wellFormed none true false hparse⟩

end Script
