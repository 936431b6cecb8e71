import Script.Tree
/-!
# Walks of the tree

A tree is walked from its nodes down to their parts: what holds of a node as soon as it holds of the
nodes in it holds of every tree. On such a walk each node is met before its parts, and the parts in
the order in which they are written.
-/

namespace Script

/-! ### Parts of nodes -/

/-- What a declared name is bound to apart from the type: a body, a value, or nothing. -/
def Binding.part? {ε : Type} : Binding ε → Option (Function ε ⊕ Value)
  | .function f => some (.inl f)
  | .constant _ v => some (.inr v)
  | .variable _ v? => v?.map .inr

namespace Statement

variable {ε : Type}

def tag : Statement ε → String
  | .ifThen .. => "if"
  | .otherwise .. => "else"
  | .forLoop .. => "for"
  | .whileLoop .. => "while"

def condition? : Statement ε → Option Value
  | .ifThen condition _ _ => some condition
  | .otherwise .. => none
  | .forLoop .. => none
  | .whileLoop condition _ _ => some condition

def header? : Statement ε → Option (ForHeader ε)
  | .forLoop header _ _ => some header
  | _ => none

end Statement

/-! ### Induction over the tree -/

namespace Value

def children : Value → List Value
  | .call node => node.arguments
  | .reference _ => []
  | .literal _ => []

private theorem sizeOf_lt_of_mem_children {v value : Value} (h : v ∈ value.children) :
    sizeOf v < sizeOf value := by
  cases value with
  | call node =>
    obtain ⟨name, internal, arguments, position⟩ := node
    have : sizeOf v < sizeOf arguments := List.sizeOf_lt_of_mem h
    simp only [call.sizeOf_spec, Call.mk.sizeOf_spec]
    omega
  | reference node => cases h
  | literal node => cases h

/-- What holds of a value as soon as it holds of the values in it holds of every value. -/
theorem induction {P : Value → Prop} (step : ∀ value, (∀ v ∈ value.children, P v) → P value)
    (value : Value) : P value :=
  step value fun v _ => Value.induction step v
termination_by value
decreasing_by exact sizeOf_lt_of_mem_children ‹_›

end Value

namespace Element

def children : Element → List Element
  | .declaration ⟨_, _, _, .function function⟩ => function.body
  | .declaration ⟨_, _, _, .constant _ _⟩ => []
  | .declaration ⟨_, _, _, .variable _ _⟩ => []
  | .assignment _ => []
  | .value _ => []
  | .statement (.ifThen _ body _) => body
  | .statement (.otherwise body _) => body
  | .statement (.forLoop header body _) => header.initial :: header.repeated :: body
  | .statement (.whileLoop _ body _) => body

private theorem sizeOf_lt_of_mem_children {e element : Element} (h : e ∈ element.children) :
    sizeOf e < sizeOf element := by
  have hbody : ∀ body : List Element, e ∈ body → sizeOf e < sizeOf body :=
    fun body => List.sizeOf_lt_of_mem
  unfold children at h
  split at h
  · next name exported position function =>
    obtain ⟨returnType, parameters, body⟩ := function
    have := hbody body h
    simp
    omega
  · cases h
  · cases h
  · cases h
  · cases h
  · next body position =>
    have := hbody _ h
    simp
    omega
  · next body position =>
    have := hbody _ h
    simp
    omega
  · next header body position =>
    cases header
    simp only [List.mem_cons] at h
    rcases h with rfl | rfl | h
    · simp
      omega
    · simp
      omega
    · have := hbody _ h
      simp
      omega
  · next body position =>
    have := hbody _ h
    simp
    omega

theorem mem_children_of_function {e : Element} {d : Declaration Element} {f : Function Element}
    (hf : d.binding.part? = some (.inl f)) (he : e ∈ f.body) :
    e ∈ (Element.declaration d).children := by
  obtain ⟨name, exported, position, binding⟩ := d
  rcases binding with g | ⟨type, v⟩ | ⟨type, _ | v⟩ <;> cases hf
  exact he

theorem mem_children_of_body {e : Element} {s : Statement Element} (he : e ∈ s.body) :
    e ∈ (Element.statement s).children := by
  cases s with
  | forLoop header body position => exact List.mem_cons_of_mem _ (List.mem_cons_of_mem _ he)
  | _ => exact he

theorem mem_children_of_header {s : Statement Element} {header : ForHeader Element}
    (hheader : s.header? = some header) : header.initial ∈ (Element.statement s).children ∧
      header.repeated ∈ (Element.statement s).children := by
  cases s <;> cases hheader
  exact ⟨List.mem_cons_self, List.mem_cons_of_mem _ List.mem_cons_self⟩

theorem induction {P : Element → Prop}
    (step : ∀ element, (∀ e ∈ element.children, P e) → P element) (element : Element) : P element :=
  step element fun e _ => Element.induction step e
termination_by element
decreasing_by exact sizeOf_lt_of_mem_children ‹_›

end Element

/-! ### Positions -/

mutual

/-- The positions in a value, each node before its parts. -/
def Value.positions : Value → List Position
  | .call node => Call.positions node
  | .reference node => [node.position]
  | .literal node => [node.position]
termination_by structural value => value

def Call.positions : Call Value → List Position
  | ⟨_, _, arguments, position⟩ => position :: Value.listPositions arguments
termination_by structural node => node

def Value.listPositions : List Value → List Position
  | [] => []
  | value :: values => value.positions ++ Value.listPositions values
termination_by structural values => values

end

def Assignment.positions (a : Assignment) : List Position := a.position :: a.value.positions

mutual

def Element.positions : Element → List Position
  | .declaration node => Declaration.positions node
  | .assignment node => node.positions
  | .value node => node.positions
  | .statement node => Statement.positions node
termination_by structural element => element

def Declaration.positions : Declaration Element → List Position
  | ⟨_, _, position, binding⟩ => position :: Binding.positions binding
termination_by structural node => node

def Binding.positions : Binding Element → List Position
  | .function function => Function.positions function
  | .constant _ value => value.positions
  | .variable _ value? => value?.toList.flatMap Value.positions
termination_by structural binding => binding

def Function.positions : Function Element → List Position
  | ⟨_, parameters, body⟩ => parameters.map Parameter.position ++ Element.listPositions body
termination_by structural function => function

def ForHeader.positions : ForHeader Element → List Position
  | ⟨initial, condition, repeated⟩ =>
    initial.positions ++ (condition.positions ++ repeated.positions)
termination_by structural header => header

def Statement.positions : Statement Element → List Position
  | .ifThen condition body position =>
    position :: (condition.positions ++ Element.listPositions body)
  | .otherwise body position => position :: Element.listPositions body
  | .forLoop header body position =>
    position :: (ForHeader.positions header ++ Element.listPositions body)
  | .whileLoop condition body position =>
    position :: (condition.positions ++ Element.listPositions body)
termination_by structural node => node

def Element.listPositions : List Element → List Position
  | [] => []
  | element :: elements => element.positions ++ Element.listPositions elements
termination_by structural elements => elements

end

def Root.positions (root : Root) : List Position := Element.listPositions root.elements

theorem Value.listPositions_eq_flatMap (values : List Value) :
    Value.listPositions values = values.flatMap Value.positions := by
  induction values with
  | nil => rfl
  | cons value values ih => rw [Value.listPositions, ih, List.flatMap_cons]

theorem Element.listPositions_eq_flatMap (elements : List Element) :
    Element.listPositions elements = elements.flatMap Element.positions := by
  induction elements with
  | nil => rfl
  | cons element elements ih => rw [Element.listPositions, ih, List.flatMap_cons]

private theorem Value.forall_mem_listPositions_iff {P : Position → Prop} {values : List Value} :
    (∀ p ∈ listPositions values, P p) ↔ ∀ v ∈ values, ∀ p ∈ v.positions, P p := by
  rw [listPositions_eq_flatMap]
  exact List.forall_mem_flatMap

theorem Element.forall_mem_listPositions_iff {P : Position → Prop} {elements : List Element} :
    (∀ p ∈ listPositions elements, P p) ↔ ∀ e ∈ elements, ∀ p ∈ e.positions, P p := by
  rw [listPositions_eq_flatMap]
  exact List.forall_mem_flatMap

theorem Call.forall_mem_positions_iff {P : Position → Prop} {c : Call Value} :
    (∀ p ∈ Call.positions c, P p) ↔ P c.position ∧ ∀ v ∈ c.arguments, ∀ p ∈ v.positions, P p := by
  obtain ⟨name, internal, arguments, position⟩ := c
  rw [positions, List.forall_mem_cons, Value.forall_mem_listPositions_iff]

theorem Function.forall_mem_positions_iff {P : Position → Prop} {f : Function Element} :
    (∀ p ∈ Function.positions f, P p) ↔
      (∀ q ∈ f.parameters, P q.position) ∧ ∀ e ∈ f.body, ∀ p ∈ e.positions, P p := by
  obtain ⟨returnType, parameters, body⟩ := f
  rw [positions, List.forall_mem_append, Element.forall_mem_listPositions_iff, List.forall_mem_map]

theorem ForHeader.forall_mem_positions_iff {P : Position → Prop} {h : ForHeader Element} :
    (∀ p ∈ ForHeader.positions h, P p) ↔ (∀ p ∈ h.initial.positions, P p) ∧
      (∀ p ∈ h.condition.positions, P p) ∧ ∀ p ∈ h.repeated.positions, P p := by
  obtain ⟨initial, condition, repeated⟩ := h
  rw [positions, List.forall_mem_append, List.forall_mem_append]

theorem Declaration.forall_mem_positions_iff {P : Position → Prop} {d : Declaration Element} :
    (∀ p ∈ Declaration.positions d, P p) ↔ P d.position ∧
      (∀ f, d.binding.part? = some (.inl f) → ∀ p ∈ Function.positions f, P p) ∧
      ∀ v, d.binding.part? = some (.inr v) → ∀ p ∈ v.positions, P p := by
  obtain ⟨name, exported, position, binding⟩ := d
  rw [positions, List.forall_mem_cons]
  rcases binding with f | ⟨type, v⟩ | ⟨type, _ | v⟩ <;> simp [Binding.positions, Binding.part?]

theorem Statement.forall_mem_positions_iff {P : Position → Prop} {s : Statement Element} :
    (∀ p ∈ Statement.positions s, P p) ↔ P s.position ∧
      (∀ c, s.condition? = some c → ∀ p ∈ c.positions, P p) ∧
      (∀ h, s.header? = some h → ∀ p ∈ ForHeader.positions h, P p) ∧
      ∀ e ∈ s.body, ∀ p ∈ e.positions, P p := by
  cases s <;>
    simp only [positions, List.forall_mem_cons, List.forall_mem_append,
      Element.forall_mem_listPositions_iff] <;>
    simp [condition?, header?, body, position]

end Script
