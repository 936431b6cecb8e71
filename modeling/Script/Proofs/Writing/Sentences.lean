import Mathlib.Data.List.Forall2
import Script.Proofs.Grammar.Words
import Script.Proofs.Writing.Literals
/-!
# Written trees are programs

What a writable node is spelled by is a phrase of the grammar, of the kind that stands for this
node. Positions are lost in writing, so the phrase stands for a node that is the same up to these.
-/

namespace Script

open Script.Parser Script.Grammar

variable {style : Style}

/-- Tokens with these texts, none of which stands anywhere in particular. -/
def tokensOf (values : List String) : List Token := values.map (Token.mk {})

@[simp] theorem tokensOf_nil : tokensOf [] = [] := rfl

@[simp] theorem tokensOf_cons (a : String) (values : List String) :
    tokensOf (a :: values) = ⟨{}, a⟩ :: tokensOf values := rfl

@[simp] theorem tokensOf_append (as bs : List String) :
    tokensOf (as ++ bs) = tokensOf as ++ tokensOf bs := List.map_append

theorem map_value_tokensOf (values : List String) :
    (tokensOf values).map Token.value = values := by
  induction values with
  | nil => rfl
  | cons a values ih => rw [tokensOf_cons, List.map_cons, ih]

/-! ### Names and types -/

namespace IsName

variable {text : String}

theorem word (h : IsName text) (position : Position) : Word ⟨position, text⟩ := h.1

theorem notMem_statementWords (h : IsName text) : text ∉ statementWords := by
  have hwords : ∀ w ∈ statementWords, Keyword.ofText? w ≠ none := by decide
  exact fun hm => hwords text hm h.2

theorem notMem_declarationWords (h : IsName text) : text ∉ declarationWords := by
  have hwords : ∀ w ∈ declarationWords, Keyword.ofText? w ≠ none := by decide
  exact fun hm => hwords text hm h.2

private theorem ofToken (h : IsName text) (position : Position) :
    Literal.ofToken ⟨position, text⟩ = .error (.unknownLiteral text) := by
  obtain ⟨c, cs, htext, hc, -⟩ := Identifier.isValid_iff.1 h.1
  have hdigit : c.isDigit = false := by
    rw [← Bool.not_eq_true]
    intro hd
    rw [Identifier.isInitial_of_isDigit hd] at hc
    cases hc
  have hquote : ¬(c = '"' ∨ c = '\'') := by
    rintro (rfl | rfl)
    · exact absurd hc (by decide)
    · exact absurd hc (by decide)
  rw [Literal.ofToken, Literal.read, htext]
  simp only [hquote, hdigit, h.2, if_false, Bool.false_eq_true]

theorem lexeme (h : IsName text) : style.Lexeme text := by
  obtain ⟨c, cs, htext, hc, hcs⟩ := Identifier.isValid_iff.1 h.1
  refine .word (fun he => ?_) fun d hd => ?_
  · simp [he] at htext
  · rw [htext] at hd
    rcases List.mem_cons.1 hd with rfl | hd
    · simp [Identifier.isFollowing, hc]
    · exact hcs d hd

end IsName

private theorem Grammar.suffixes_replicate (n : Nat) :
    Suffixes (tokensOf (List.replicate n "[]")) (suffixes n) := by
  induction n with
  | zero => exact .nil
  | succ n ih => exact .joined rfl ih

private theorem length_suffixes (n : Nat) : (suffixes n).length = 2 * n := by
  induction n with
  | zero => rfl
  | succ n ih =>
    have hpair : "[]".length = 2 := rfl
    rw [suffixes, String.length_append, ih, hpair]
    omega

private theorem takeWhile_suffixes (n : Nat) : (suffixes n).toList.takeWhile (· ≠ '[') = [] := by
  cases n with
  | zero => rfl
  | succ n =>
    rw [suffixes, String.toList_append]
    rfl

theorem IsType.exists_typeSpelling {text : String} (h : IsType text) :
    ∃ base n, IsName base ∧ typeSpelling text = base :: List.replicate n "[]" ∧
      text = base ++ suffixes n := by
  obtain ⟨base, n, hbase, rfl⟩ := h
  refine ⟨base, n, hbase, ?_, rfl⟩
  have hchars : ∀ c ∈ base.toList, decide (c ≠ '[') = true := by
    obtain ⟨c, cs, htext, hc, hcs⟩ := Identifier.isValid_iff.1 hbase.1
    rw [htext]
    refine List.forall_mem_cons.2 ⟨decide_eq_true ?_, fun d hd => decide_eq_true ?_⟩
    · rintro rfl
      exact absurd hc (by decide)
    · exact Identifier.ne_of_isFollowing (hcs d hd) (by decide)
  have htake : (base ++ suffixes n).toList.takeWhile (· ≠ '[') = base.toList := by
    rw [String.toList_append, List.takeWhile_append_of_pos hchars, takeWhile_suffixes,
      List.append_nil]
  have hcount : ((base ++ suffixes n).length - base.toList.length) / 2 = n := by
    rw [String.length_append, length_suffixes, String.length_toList]
    omega
  unfold typeSpelling
  simp only [htake, hcount, String.ofList_toList]

theorem IsType.lexeme {text : String} (h : IsType text) :
    ∀ a ∈ typeSpelling text, style.Lexeme a := by
  obtain ⟨base, n, hbase, hspelling, -⟩ := h.exists_typeSpelling
  rw [hspelling]
  refine List.forall_mem_cons.2 ⟨hbase.lexeme, fun a ha => ?_⟩
  obtain ⟨-, rfl⟩ := List.mem_replicate.1 ha
  exact .sign (by decide)

/-! ### Lists in parentheses -/

section

variable {α β : Type} {item : List Token → α → Prop} {u : α → β}

private theorem exists_items {items : List (List String)} {bs : List β} (hne : items ≠ [])
    (h : List.Forall₂ (fun values b => ∃ a, item (tokensOf values) a ∧ u a = b) items bs) :
    ∃ as, Items item (tokensOf (itemsSpelling items)) as ∧ as.map u = bs := by
  induction h with
  | nil => exact absurd rfl hne
  | @cons values b items bs hitem hitems ih =>
    obtain ⟨a, ha, rfl⟩ := hitem
    cases items with
    | nil =>
      cases hitems
      refine ⟨[a], ?_, rfl⟩
      rw [itemsSpelling, tokensOf_append]
      exact .last ha rfl
    | cons next items =>
      obtain ⟨as, has, rfl⟩ := ih (List.cons_ne_nil _ _)
      refine ⟨a :: as, ?_, rfl⟩
      rw [itemsSpelling, tokensOf_append, tokensOf_cons]
      · exact .more ha rfl has
      · simp

theorem exists_parenthesized {items : List (List String)} {bs : List β}
    (h : List.Forall₂ (fun values b => ∃ a, item (tokensOf values) a ∧ u a = b) items bs) :
    ∃ as, Parenthesized item (tokensOf (inParentheses items)) as ∧ as.map u = bs := by
  cases items with
  | nil =>
    cases h
    exact ⟨[], .none rfl rfl, rfl⟩
  | cons values items =>
    obtain ⟨as, has, hbs⟩ := exists_items (List.cons_ne_nil _ _) h
    exact ⟨as, .some rfl has, hbs⟩

private theorem lexeme_itemsSpelling {items : List (List String)}
    (h : ∀ values ∈ items, ∀ a ∈ values, style.Lexeme a) :
    ∀ a ∈ itemsSpelling items, style.Lexeme a := by
  induction items with
  | nil => exact List.forall_mem_singleton.2 (.sign (by decide))
  | cons values items ih =>
    obtain ⟨hvalues, hitems⟩ := List.forall_mem_cons.1 h
    cases items with
    | nil =>
      rw [itemsSpelling]
      exact List.forall_mem_append.2 ⟨hvalues, List.forall_mem_singleton.2 (.sign (by decide))⟩
    | cons next items =>
      rw [itemsSpelling]
      · exact List.forall_mem_append.2
          ⟨hvalues, List.forall_mem_cons.2 ⟨.sign (by decide), ih hitems⟩⟩
      · simp

theorem lexeme_inParentheses {items : List (List String)}
    (h : ∀ values ∈ items, ∀ a ∈ values, style.Lexeme a) :
    ∀ a ∈ inParentheses items, style.Lexeme a :=
  List.forall_mem_cons.2 ⟨.sign (by decide), lexeme_itemsSpelling h⟩

end

/-! ### Values -/

theorem Value.listSpelling_eq_map (style : Style) (values : List Value) :
    Value.listSpelling style values = values.map (Value.spelling style) := by
  induction values with
  | nil => rfl
  | cons value values ih => simp [Value.listSpelling, ih]

theorem exists_arguments {arguments : List Value} {style : Style}
    (h : ∀ v ∈ arguments, ∃ w, Plain (tokensOf (v.spelling style)) w ∧ w.unplaced = v.unplaced) :
    ∃ ws, Parenthesized Expression
        (tokensOf (inParentheses (Value.listSpelling style arguments))) ws ∧
      ws.map Value.unplaced = arguments.map Value.unplaced := by
  refine exists_parenthesized ?_
  rw [Value.listSpelling_eq_map, List.forall₂_map_left_iff, List.forall₂_map_right_iff,
    List.forall₂_same]
  intro v hv
  obtain ⟨w, hw, hvw⟩ := h v hv
  exact ⟨w, .plain hw, hvw⟩

/-- An operand is a value that leaves the statement open. -/
theorem Value.Operand.exists_plain {v : Value} (h : v.Operand) (style : Style) :
    ∃ w, Plain (tokensOf (v.spelling style)) w ∧ w.unplaced = v.unplaced := by
  induction h with
  | @literal l h =>
    have hread := Literal.read_spelling h style
    refine ⟨.literal ⟨l.kind, l.text, {}⟩, .literal ?_, rfl⟩
    simp [Literal.ofToken, hread]
  | @reference r h => exact ⟨_, .reference (h.ofToken {}) h.1, rfl⟩
  | call hn _ ih =>
    obtain ⟨ws, hws, harguments⟩ := exists_arguments ih
    refine ⟨_, .call (hn.word {}) hws, ?_⟩
    simp only [Value.unplaced, Call.unplaced, Value.listUnplaced_eq_map, harguments]

theorem Value.Counting.exists_step {v : Value} (h : v.Counting) (style : Style) :
    ∃ w, Step (tokensOf (v.terminated style)) w ∧ w.unplaced = v.unplaced := by
  cases h with
  | @intro operation r position ho h =>
    simp only [List.mem_cons, List.not_mem_nil, or_false] at ho
    rcases ho with rfl | rfl | rfl | rfl
    · exact ⟨_, .before (.inl rfl) (h.word {}) rfl, rfl⟩
    · exact ⟨_, .behind (h.word {}) (.inl rfl) rfl, rfl⟩
    · exact ⟨_, .before (.inr rfl) (h.word {}) rfl, rfl⟩
    · exact ⟨_, .behind (h.word {}) (.inr rfl) rfl, rfl⟩

theorem Value.Final.exists_terminated {v : Value} (h : v.Final) (style : Style) :
    ∃ w, Terminated (tokensOf (v.terminated style)) w ∧ w.unplaced = v.unplaced := by
  rcases h with h | h
  · obtain ⟨w, hw, hvw⟩ := h.exists_plain style
    refine ⟨w, ?_, hvw⟩
    rw [Value.terminated, tokensOf_append]
    exact .plain hw rfl
  · obtain ⟨w, hw, hvw⟩ := h.exists_step style
    exact ⟨w, .step hw, hvw⟩

private theorem Value.Final.exists_initializer {v : Value} (h : v.Final) (constant : Bool)
    (style : Style) :
    ∃ w, Initializer constant (tokensOf ("=" :: v.terminated style)) (some w) ∧
      w.unplaced = v.unplaced := by
  obtain ⟨w, hw, hvw⟩ := h.exists_terminated style
  exact ⟨w, .some rfl hw, hvw⟩

private theorem Value.Operand.lexeme {v : Value} (h : v.Operand) :
    ∀ a ∈ v.spelling style, style.Lexeme a := by
  induction h with
  | literal h => exact List.forall_mem_singleton.2 h.lexeme
  | reference h => exact List.forall_mem_singleton.2 h.lexeme
  | @call name arguments position hn _ ih =>
    refine List.forall_mem_cons.2 ⟨hn.lexeme, lexeme_inParentheses ?_⟩
    rw [Value.listSpelling_eq_map]
    exact List.forall_mem_map.2 ih

private theorem Value.Counting.lexeme {v : Value} (h : v.Counting) :
    ∀ a ∈ v.spelling style, style.Lexeme a := by
  cases h with
  | @intro operation r position ho h =>
    have hincrement : style.Lexeme "++" := .sign (by decide)
    have hdecrement : style.Lexeme "--" := .sign (by decide)
    have hname : style.Lexeme r.name := h.lexeme
    simp only [List.mem_cons, List.not_mem_nil, or_false] at ho
    rcases ho with rfl | rfl | rfl | rfl
    · exact List.forall_mem_cons.2 ⟨hincrement, List.forall_mem_singleton.2 hname⟩
    · exact List.forall_mem_cons.2 ⟨hname, List.forall_mem_singleton.2 hincrement⟩
    · exact List.forall_mem_cons.2 ⟨hdecrement, List.forall_mem_singleton.2 hname⟩
    · exact List.forall_mem_cons.2 ⟨hname, List.forall_mem_singleton.2 hdecrement⟩

theorem Value.Final.lexeme {v : Value} (h : v.Final) :
    ∀ a ∈ v.terminated style, style.Lexeme a := by
  refine List.forall_mem_append.2 ⟨?_, List.forall_mem_singleton.2 (.sign (by decide))⟩
  rcases h with h | h
  · exact h.lexeme
  · exact h.lexeme

private theorem Value.Final.lexeme_initializer {v : Value} (h : v.Final) :
    ∀ a ∈ "=" :: v.terminated style, style.Lexeme a :=
  List.forall_mem_cons.2 ⟨.sign (by decide), h.lexeme⟩

/-! ### Declarations -/

theorem modified_modifierSpelling (exported constant : Bool) :
    Modified (tokensOf (modifierSpelling exported constant)) ⟨exported, constant⟩ := by
  cases exported with
  | false =>
    cases constant with
    | false => exact .none
    | true => exact .constant rfl
  | true =>
    cases constant with
    | false => exact .exported rfl
    | true => exact .exportedConstant rfl rfl

theorem lexeme_modifierSpelling (exported constant : Bool) :
    ∀ a ∈ modifierSpelling exported constant, style.Lexeme a := by
  have hwords : ∀ exported constant, ∀ a ∈ modifierSpelling exported constant,
      a ≠ "" ∧ a.toList.all Identifier.isFollowing = true := by
    decide
  intro a ha
  obtain ⟨hne, hall⟩ := hwords exported constant a ha
  exact .of_all hne hall

theorem IsType.exists_typeName {type : String} (h : IsType type) :
    ∃ base ts, tokensOf (typeSpelling type) = ⟨{}, base⟩ :: ts ∧ IsName base ∧
      TypeName (⟨{}, base⟩ :: ts) type := by
  obtain ⟨base, n, hbase, hspelling, rfl⟩ := h.exists_typeSpelling
  exact ⟨base, _, congrArg tokensOf hspelling, hbase, .intro (hbase.word {}) (suffixes_replicate n)⟩

private theorem exists_declared {exported constant : Bool} {name type : String}
    {values : List String} {value? : Option Value} {bound : Binding Element}
    (hn : IsName name) (ht : IsType type)
    (h : Initializer constant (tokensOf values) value?) (hb : Bound type constant value? bound) :
    ∃ position, Sentence
      (tokensOf (modifierSpelling exported constant ++ (typeSpelling type ++ name :: values)))
      (some (.declaration ⟨name, exported, position, bound⟩)) := by
  obtain ⟨base, ts, htype, hbase, htypeName⟩ := ht.exists_typeName
  refine ⟨start (tokensOf (modifierSpelling exported constant) ++ [⟨{}, base⟩]), ?_⟩
  rw [tokensOf_append, tokensOf_append, htype, tokensOf_cons, List.cons_append]
  exact .declared (modified_modifierSpelling exported constant) htypeName
    hbase.notMem_declarationWords (fun _ => hbase.notMem_statementWords) (hn.word {}) h hb

private theorem Parameter.Writable.exists_declaredParameter {p : Parameter} (h : p.Writable) :
    ∃ q, DeclaredParameter (tokensOf (Parameter.spelling p)) q ∧ q.unplaced = p.unplaced := by
  obtain ⟨base, ts, htype, -, htypeName⟩ := h.2.exists_typeName
  refine ⟨⟨p.name, p.type, start (tokensOf (typeSpelling p.type))⟩, ?_, rfl⟩
  rw [Parameter.spelling, tokensOf_append]
  rw [← htype] at htypeName
  exact .intro htypeName (h.1.word {})

private theorem Parameter.Writable.lexeme {p : Parameter} (h : p.Writable) :
    ∀ a ∈ Parameter.spelling p, style.Lexeme a :=
  List.forall_mem_append.2 ⟨h.2.lexeme, List.forall_mem_singleton.2 h.1.lexeme⟩

private theorem exists_function {exported : Bool} {name returnType : String}
    {parameters : List Parameter} {values : List String} {body : List Element} (hn : IsName name)
    (hp : ∀ p ∈ parameters, p.Writable) (ht : IsType returnType)
    (h : Program (tokensOf values) body) :
    ∃ position qs, qs.map Parameter.unplaced = parameters.map Parameter.unplaced ∧ Sentence
      (tokensOf (modifierSpelling exported false ++ "func" :: name ::
        (inParentheses (parameters.map Parameter.spelling) ++
          (typeSpelling returnType ++ "\x7b" :: (values ++ ["\x7d"])))))
      (some (.declaration ⟨name, exported, position, .function ⟨returnType, qs, body⟩⟩)) := by
  obtain ⟨base, ts, htype, -, htypeName⟩ := ht.exists_typeName
  have hitems : List.Forall₂
      (fun values b => ∃ q, DeclaredParameter (tokensOf values) q ∧ q.unplaced = b)
      (parameters.map Parameter.spelling) (parameters.map Parameter.unplaced) := by
    rw [List.forall₂_map_left_iff, List.forall₂_map_right_iff, List.forall₂_same]
    exact fun p hmem => (hp p hmem).exists_declaredParameter
  obtain ⟨qs, hqs, hparameters⟩ := exists_parenthesized hitems
  refine ⟨start (tokensOf (modifierSpelling exported false) ++ [⟨{}, "func"⟩]), qs, hparameters, ?_⟩
  rw [← htype] at htypeName
  simp only [tokensOf_append, tokensOf_cons, tokensOf_nil]
  have hmodified := modified_modifierSpelling exported false
  exact .function hmodified rfl (hn.word {}) hqs htypeName rfl h rfl

/-! ### Elements -/

theorem exists_program {elements : List Element} {style : Style}
    (h : ∀ e ∈ elements, ∃ f, Sentence (tokensOf (e.spelling style)) (some f) ∧
      f.unplaced = e.unplaced) :
    ∃ fs, Program (tokensOf (Element.listSpelling style elements)) fs ∧
      fs.map Element.unplaced = elements.map Element.unplaced := by
  induction elements with
  | nil => exact ⟨[], .nil, rfl⟩
  | cons e elements ih =>
    obtain ⟨he, helements⟩ := List.forall_mem_cons.1 h
    obtain ⟨f, hf, hfe⟩ := he
    obtain ⟨fs, hfs, hfes⟩ := ih helements
    refine ⟨f :: fs, ?_, by rw [List.map_cons, List.map_cons, hfe, hfes]⟩
    rw [Element.listSpelling, tokensOf_append]
    exact .cons hf hfs

theorem spelling_returned (style : Style) (v : Value) (position : Position) :
    Element.spelling style (.value (.call ⟨"return", true, [v], position⟩)) =
      "return" :: v.terminated style := by
  simp [Element.spelling, Value.terminated, Value.spelling, Call.spelling, Value.listSpelling,
    operationSpelling]

/-- What is written for an element is a sentence that stands for it. -/
theorem Element.Writable.exists_sentence {e : Element} (h : e.Writable) (style : Style) :
    ∃ f, Sentence (tokensOf (e.spelling style)) (some f) ∧ f.unplaced = e.unplaced := by
  induction h with
  | function hn hp ht _ ih =>
    obtain ⟨fs, hfs, hbody⟩ := exists_program ih
    obtain ⟨position, qs, hqs, hsentence⟩ := exists_function hn hp ht hfs
    refine ⟨_, hsentence, ?_⟩
    simp only [Element.unplaced, Declaration.unplaced, Binding.unplaced, Function.unplaced,
      Element.listUnplaced_eq_map, hqs, hbody]
  | constant hn ht h =>
    obtain ⟨w, hinitializer, hvw⟩ := h.exists_initializer true style
    obtain ⟨position, hsentence⟩ := exists_declared hn ht hinitializer (.constant w)
    refine ⟨_, hsentence, ?_⟩
    simp [Element.unplaced, Declaration.unplaced, Binding.unplaced, hvw]
  | @changeable name type exported _ value? hn ht h =>
    cases value? with
    | none =>
      have hinitializer : Initializer false (tokensOf [";"]) none := .none rfl
      obtain ⟨position, hsentence⟩ := exists_declared hn ht hinitializer (.changeable none)
      exact ⟨_, hsentence, rfl⟩
    | some v =>
      obtain ⟨w, hinitializer, hvw⟩ := (h v rfl).exists_initializer false style
      obtain ⟨position, hsentence⟩ := exists_declared hn ht hinitializer (.changeable (some w))
      refine ⟨_, hsentence, ?_⟩
      simp [Element.unplaced, Declaration.unplaced, Binding.unplaced, hvw]
  | assignment hn h =>
    obtain ⟨w, hw, hvw⟩ := h.exists_terminated style
    have hdeclaration := hn.notMem_declarationWords
    refine ⟨_, .assigned (hn.word {}) hn.notMem_statementWords hdeclaration rfl hw, ?_⟩
    simp [Element.unplaced, Assignment.unplaced, hvw]
  | @call name arguments position hn h =>
    obtain ⟨ws, hws, harguments⟩ := exists_arguments fun v hv => (h v hv).exists_plain style
    have htokens : tokensOf (Element.spelling style
        (.value (.call ⟨name, false, arguments, position⟩))) =
          ⟨{}, name⟩ :: (tokensOf (inParentheses (Value.listSpelling style arguments)) ++
            [⟨{}, ";"⟩]) :=
      tokensOf_append (name :: inParentheses (Value.listSpelling style arguments)) [";"]
    rw [htokens]
    refine ⟨_, .call (hn.word {}) hn.notMem_statementWords hws rfl, ?_⟩
    simp only [Element.unplaced, Value.unplaced, Call.unplaced, Value.listUnplaced_eq_map,
      harguments]
  | @returned v position h =>
    obtain ⟨w, hw, hvw⟩ := h.exists_terminated style
    rw [spelling_returned]
    refine ⟨_, .returned rfl hw, ?_⟩
    simp only [Element.unplaced, Value.unplaced, Call.unplaced, Value.listUnplaced, hvw]
  | counting h =>
    obtain ⟨w, hw, hvw⟩ := h.exists_step style
    exact ⟨_, .step hw, by simp [Element.unplaced, hvw]⟩

theorem lexeme_listSpelling {elements : List Element}
    (h : ∀ e ∈ elements, ∀ a ∈ e.spelling style, style.Lexeme a) :
    ∀ a ∈ Element.listSpelling style elements, style.Lexeme a := by
  induction elements with
  | nil => exact List.forall_mem_nil _
  | cons e elements ih =>
    obtain ⟨he, helements⟩ := List.forall_mem_cons.1 h
    rw [Element.listSpelling]
    exact List.forall_mem_append.2 ⟨he, ih helements⟩

private theorem lexeme_declared {name type : String} {values : List String}
    (exported constant : Bool) (hn : IsName name) (ht : IsType type)
    (h : ∀ a ∈ values, style.Lexeme a) :
    ∀ a ∈ modifierSpelling exported constant ++ (typeSpelling type ++ name :: values),
      style.Lexeme a :=
  List.forall_mem_append.2 ⟨lexeme_modifierSpelling exported constant,
    List.forall_mem_append.2 ⟨ht.lexeme, List.forall_mem_cons.2 ⟨hn.lexeme, h⟩⟩⟩

private theorem lexeme_function {parameters : List Parameter} {returnType : String}
    {body : List Element} (hp : ∀ p ∈ parameters, p.Writable) (ht : IsType returnType)
    (h : ∀ a ∈ Element.listSpelling style body, style.Lexeme a) :
    ∀ a ∈ Function.spelling style ⟨returnType, parameters, body⟩, style.Lexeme a := by
  have hparameters : ∀ a ∈ inParentheses (parameters.map Parameter.spelling), style.Lexeme a :=
    lexeme_inParentheses (List.forall_mem_map.2 fun p hmem => (hp p hmem).lexeme)
  have hblock : ∀ a ∈ "\x7b" :: (Element.listSpelling style body ++ ["\x7d"]), style.Lexeme a :=
    List.forall_mem_cons.2 ⟨.sign (by decide),
      List.forall_mem_append.2 ⟨h, List.forall_mem_singleton.2 (.sign (by decide))⟩⟩
  exact List.forall_mem_append.2 ⟨hparameters, List.forall_mem_append.2 ⟨ht.lexeme, hblock⟩⟩

theorem Element.Writable.lexeme {e : Element} (h : e.Writable) :
    ∀ a ∈ e.spelling style, style.Lexeme a := by
  induction h with
  | function hn hp ht _ ih =>
    refine List.forall_mem_append.2 ⟨lexeme_modifierSpelling _ _, ?_⟩
    refine List.forall_mem_cons.2 ⟨.of_all (by decide) (by decide), ?_⟩
    refine List.forall_mem_cons.2 ⟨hn.lexeme, ?_⟩
    exact lexeme_function hp ht (lexeme_listSpelling ih)
  | constant hn ht h => exact lexeme_declared _ true hn ht h.lexeme_initializer
  | @changeable name type exported _ value? hn ht h =>
    cases value? with
    | none =>
      exact lexeme_declared exported false hn ht
        (List.forall_mem_singleton.2 (.sign (by decide)))
    | some v => exact lexeme_declared exported false hn ht (h v rfl).lexeme_initializer
  | assignment hn h => exact List.forall_mem_cons.2 ⟨hn.lexeme, h.lexeme_initializer⟩
  | call hn h => exact Value.Final.lexeme (.inl (.call hn h))
  | returned h =>
    rw [spelling_returned]
    exact List.forall_mem_cons.2 ⟨.of_all (by decide) (by decide), h.lexeme⟩
  | counting h => exact Value.Final.lexeme (.inr h)

end Script
