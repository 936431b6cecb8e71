import Script.Proofs.Recovery.Gathered
import Script.Proofs.Tree.Siblings
/-!
# Nodes stand where their tokens stand

Every node that is read stands at one of its tokens. So where the tokens stand one behind the other,
the nodes do: on a walk of the tree no position goes back, and siblings, which have no token in
common, stand apart. Errors that are passed over do not change this.
-/

namespace Script

open Script.Parser Script.Grammar

/-! ### Nodes among tokens -/

/-- Nodes stand among the tokens, and in their order: each position is one of a token, no position
goes back, and siblings stand one behind the other. -/
structure Follows (tokens : List Token) (positions : List Position)
    (siblings : List (List Position)) : Prop where
  stands : ∀ p ∈ positions, ∃ t ∈ tokens, t.position = p
  sorted : positions.Pairwise (· ≤ ·)
  apart : ∀ family ∈ siblings, family.Pairwise (· < ·)

def Walk.FollowsAll {ν : Type} (walk : Walk ν) (tokens : List Token) (nodes : List ν) : Prop :=
  Follows tokens (nodes.flatMap walk.positions)
    (nodes.map walk.position :: nodes.flatMap walk.siblings)

namespace Follows

variable {ν : Type} {ts us : List Token} {ps qs : List Position}
  {ss rs : List (List Position)}

/-- A node that is a single token and has no parts. -/
theorem leaf {t : Token} (ht : t ∈ ts) : Follows ts [t.position] [] where
  stands := List.forall_mem_singleton.2 ⟨t, ht, rfl⟩
  sorted := List.pairwise_singleton _ _
  apart := List.forall_mem_nil _

theorem widen (h : Follows us ps ss) (hsub : us ⊆ ts) : Follows ts ps ss where
  stands p hp := by
    obtain ⟨t, ht, rfl⟩ := h.stands p hp
    exact ⟨t, hsub ht, rfl⟩
  sorted := h.sorted
  apart := h.apart

/-- A node stands at the first token, before its parts. -/
theorem node {first : Token} (h : Follows (first :: ts) ps ss)
    (hts : (first :: ts).Pairwise Token.Before) :
    Follows (first :: ts) (first.position :: ps) ss where
  stands := List.forall_mem_cons.2 ⟨⟨first, List.mem_cons_self, rfl⟩, h.stands⟩
  sorted := by
    refine List.pairwise_cons.2 ⟨fun p hp => ?_, h.sorted⟩
    obtain ⟨t, ht, rfl⟩ := h.stands p hp
    rcases List.mem_cons.1 ht with rfl | ht
    · exact Position.le_refl _
    · exact Position.le_of_lt ((List.pairwise_cons.1 hts).1 t ht)
  apart := h.apart

theorem append (h : Follows ts ps ss) (h' : Follows us qs rs)
    (hts : (ts ++ us).Pairwise Token.Before) : Follows (ts ++ us) (ps ++ qs) (ss ++ rs) where
  stands := List.forall_mem_append.2
    ⟨(h.widen (List.subset_append_left ts us)).stands,
      (h'.widen (List.subset_append_right ts us)).stands⟩
  sorted := by
    refine List.pairwise_append.2 ⟨h.sorted, h'.sorted, fun p hp q hq => ?_⟩
    obtain ⟨t, ht, rfl⟩ := h.stands p hp
    obtain ⟨u, hu, rfl⟩ := h'.stands q hq
    exact Position.le_of_lt ((List.pairwise_append.1 hts).2.2 t ht u hu)
  apart := List.forall_mem_append.2 ⟨h.apart, h'.apart⟩

theorem all_nil (walk : Walk ν) (ts : List Token) : walk.FollowsAll ts [] where
  stands := List.forall_mem_nil _
  sorted := .nil
  apart := List.forall_mem_singleton.2 .nil

theorem all_singleton (walk : Walk ν) {node : ν}
    (h : Follows ts (walk.positions node) (walk.siblings node)) : walk.FollowsAll ts [node] where
  stands := by simpa using h.stands
  sorted := by simpa using h.sorted
  apart := by
    simp only [List.map_cons, List.map_nil, List.flatMap_singleton]
    exact List.forall_mem_cons.2 ⟨List.pairwise_singleton _ _, h.apart⟩

theorem all_cons (walk : Walk ν) {node : ν} {nodes : List ν}
    (h : Follows ts (walk.positions node) (walk.siblings node)) (hs : walk.FollowsAll us nodes)
    (hts : (ts ++ us).Pairwise Token.Before) : walk.FollowsAll (ts ++ us) (node :: nodes) := by
  obtain ⟨hfamily, hapart⟩ := List.forall_mem_cons.1 hs.apart
  have hboth : Follows (ts ++ us) ((node :: nodes).flatMap walk.positions)
      ((node :: nodes).flatMap walk.siblings) := by
    rw [List.flatMap_cons, List.flatMap_cons]
    exact h.append ⟨hs.stands, hs.sorted, hapart⟩ hts
  refine ⟨hboth.stands, hboth.sorted, List.forall_mem_cons.2 ⟨?_, hboth.apart⟩⟩
  rw [List.map_cons, List.pairwise_cons]
  refine ⟨fun q hq => ?_, hfamily⟩
  obtain ⟨next, hnext, rfl⟩ := List.mem_map.1 hq
  obtain ⟨t, ht, hposition⟩ := h.stands _ (walk.position_mem node)
  obtain ⟨u, hu, hposition'⟩ :=
    hs.stands _ (List.mem_flatMap.2 ⟨next, hnext, walk.position_mem next⟩)
  rw [← hposition, ← hposition']
  exact (List.pairwise_append.1 hts).2.2 t ht u hu

theorem all_option {element? : Option Element} {elements : List Element}
    (h : ∀ e ∈ element?, Follows ts e.positions e.siblings)
    (hs : Walk.element.FollowsAll us elements) (hts : (ts ++ us).Pairwise Token.Before) :
    Walk.element.FollowsAll (ts ++ us) (element?.toList ++ elements) := by
  cases element? with
  | none => exact widen hs (List.subset_append_right ts us)
  | some e => exact all_cons Walk.element (h e rfl) hs hts

end Follows

/-! ### Walks of single nodes -/

private theorem Value.positions_call (name : String) (internal : Bool) (arguments : List Value)
    (position : Position) :
    (Value.call ⟨name, internal, arguments, position⟩).positions =
      position :: arguments.flatMap Value.positions := by
  rw [Value.positions, Call.positions, Value.listPositions_eq_flatMap]

private theorem Value.siblings_call (name : String) (internal : Bool) (arguments : List Value)
    (position : Position) :
    (Value.call ⟨name, internal, arguments, position⟩).siblings =
      arguments.map Value.position :: arguments.flatMap Value.siblings := by
  rw [Value.siblings, Call.siblings, Value.listSiblings_eq_flatMap]

theorem Follows.call (name : String) (internal : Bool) {first : Token} {ts : List Token}
    {arguments : List Value} (h : Walk.value.FollowsAll (first :: ts) arguments)
    (hts : (first :: ts).Pairwise Token.Before) :
    Follows (first :: ts) (Value.call ⟨name, internal, arguments, first.position⟩).positions
      (Value.call ⟨name, internal, arguments, first.position⟩).siblings := by
  rw [Value.positions_call, Value.siblings_call]
  exact Follows.node h hts

namespace Grammar

/-! ### Values -/

theorem Step.follows {ts : List Token} {v : Value} (h : Step ts v)
    (hts : ts.Pairwise Token.Before) : Follows ts v.positions v.siblings := by
  have hvariable : ∀ {name : Token}, name ∈ ts →
      Walk.value.FollowsAll ts [.reference ⟨name.value, name.position⟩] := fun hname =>
    Follows.all_singleton Walk.value (.leaf hname)
  cases h with
  | before _ _ _ => exact .call _ true (hvariable (by simp)) hts
  | behind _ _ _ => exact .call _ true (hvariable (by simp)) hts

mutual

theorem Expression.follows {ts : List Token} {v : Value} :
    Expression ts v → ts.Pairwise Token.Before → Follows ts v.positions v.siblings
  | .step h, hts => h.follows hts
  | .plain h, hts => h.follows hts

private theorem Plain.follows {ts : List Token} {v : Value} :
    Plain ts v → ts.Pairwise Token.Before → Follows ts v.positions v.siblings
  | .group _ h _, hts => by
    have hinside := h.follows (List.pairwise_append.1 hts.of_cons).1
    exact hinside.widen (List.subset_cons_of_subset _ (List.subset_append_left _ _))
  | .call _ h, hts => by
    have harguments := Parenthesized.follows h hts.of_cons
    exact .call _ false (Follows.widen harguments (List.subset_cons_self _ _)) hts
  | .literal h, _ => by
    rw [Literal.ofToken] at h
    split at h
    · cases h
      exact .leaf List.mem_cons_self
    · cases h
  | .reference _ _, _ => .leaf List.mem_cons_self

theorem Parenthesized.follows {ts : List Token} {vs : List Value} :
    Parenthesized Expression ts vs → ts.Pairwise Token.Before → Walk.value.FollowsAll ts vs
  | .none _ _, _ => .all_nil _ _
  | .some _ h, hts => Follows.widen (Items.follows h hts.of_cons) (List.subset_cons_self _ _)

theorem Items.follows {ts : List Token} {vs : List Value} :
    Items Expression ts vs → ts.Pairwise Token.Before → Walk.value.FollowsAll ts vs
  | .last h _, hts => by
    have hlast := h.follows (List.pairwise_append.1 hts).1
    exact .all_singleton Walk.value (hlast.widen (List.subset_append_left _ _))
  | .more h _ hs, hts => by
    obtain ⟨hfirst, hbehind, -⟩ := List.pairwise_append.1 hts
    have hmore := Items.follows hs hbehind.of_cons
    exact .all_cons Walk.value (h.follows hfirst) (hmore.widen (List.subset_cons_self _ _)) hts

end

theorem Terminated.follows {ts : List Token} {v : Value} (h : Terminated ts v)
    (hts : ts.Pairwise Token.Before) : Follows ts v.positions v.siblings := by
  cases h with
  | step h => exact h.follows hts
  | plain h _ =>
    exact (h.follows (List.pairwise_append.1 hts).1).widen (List.subset_append_left _ _)

private theorem Initializer.follows {constant : Bool} {ts : List Token} {value? : Option Value}
    (h : Initializer constant ts value?) (hts : ts.Pairwise Token.Before) :
    Follows ts (value?.toList.flatMap Value.positions) (value?.toList.flatMap Value.siblings) := by
  cases h with
  | none _ => exact ⟨List.forall_mem_nil _, .nil, List.forall_mem_nil _⟩
  | some _ h =>
    have hvalue := h.follows hts.of_cons
    simpa using hvalue.widen (List.subset_cons_self _ _)

/-! ### Declarations -/

private theorem DeclaredParameter.exists_position {ts : List Token} {p : Parameter}
    (h : DeclaredParameter ts p) : ∃ t ∈ ts, t.position = p.position := by
  cases h with
  | intro ht _ =>
    cases ht with
    | intro _ _ => exact ⟨_, List.mem_cons_self, rfl⟩

private theorem Items.follows_parameters {ts : List Token} {parameters : List Parameter}
    (h : Items DeclaredParameter ts parameters) (hts : ts.Pairwise Token.Before) :
    Walk.parameter.FollowsAll ts parameters := by
  have hparameter : ∀ {us : List Token} {p : Parameter}, DeclaredParameter us p →
      Follows us (Walk.parameter.positions p) (Walk.parameter.siblings p) := by
    intro us p hp
    obtain ⟨t, ht, hposition⟩ := hp.exists_position
    show Follows us [p.position] []
    rw [← hposition]
    exact .leaf ht
  induction h with
  | last h _ =>
    exact .all_singleton Walk.parameter ((hparameter h).widen (List.subset_append_left _ _))
  | more h _ _ ih =>
    obtain ⟨-, hbehind, -⟩ := List.pairwise_append.1 hts
    have hmore := ih hbehind.of_cons
    exact .all_cons Walk.parameter (hparameter h) (hmore.widen (List.subset_cons_self _ _)) hts

theorem Parenthesized.follows_parameters {ts : List Token} {parameters : List Parameter}
    (h : Parenthesized DeclaredParameter ts parameters) (hts : ts.Pairwise Token.Before) :
    Walk.parameter.FollowsAll ts parameters := by
  cases h with
  | none _ _ => exact .all_nil _ _
  | some _ h =>
    exact Follows.widen (h.follows_parameters hts.of_cons) (List.subset_cons_self _ _)

/-- With modifiers or without, the first token is known as soon as there is one behind them. -/
theorem exists_start (ms : List Token) (word : Token) (rest : List Token) :
    ∃ first us, ms ++ word :: rest = first :: us ∧ start (ms ++ [word]) = first.position := by
  cases ms with
  | nil => exact ⟨word, rest, rfl, rfl⟩
  | cons m ms => exact ⟨m, ms ++ word :: rest, rfl, rfl⟩

theorem follows_declaration {ms rest : List Token} {word : Token} {name : String} {exported : Bool}
    {binding : Binding Element}
    (h : Follows (ms ++ word :: rest) (Binding.positions binding) (Binding.siblings binding))
    (hts : (ms ++ word :: rest).Pairwise Token.Before) :
    Follows (ms ++ word :: rest)
      (Element.declaration ⟨name, exported, start (ms ++ [word]), binding⟩).positions
      (Element.declaration ⟨name, exported, start (ms ++ [word]), binding⟩).siblings := by
  obtain ⟨first, us, htokens, hstart⟩ := exists_start ms word rest
  rw [htokens] at h hts ⊢
  rw [hstart]
  exact h.node hts

theorem Initializer.follows_bound {type : String} {constant : Bool} {ts : List Token}
    {value? : Option Value} {bound : Binding Element} (h : Initializer constant ts value?)
    (hb : Bound type constant value? bound) (hts : ts.Pairwise Token.Before) :
    Follows ts (Binding.positions bound) (Binding.siblings bound) := by
  have hvalue := h.follows hts
  cases hb with
  | constant v => simpa [Binding.positions, Binding.siblings] using hvalue
  | changeable value? => cases value? <;> exact hvalue

theorem follows_function (returnType : String) {ps us : List Token}
    {parameters : List Parameter} {body : List Element}
    (hp : Walk.parameter.FollowsAll ps parameters) (hb : Walk.element.FollowsAll us body)
    (hts : (ps ++ us).Pairwise Token.Before) :
    Follows (ps ++ us) (Function.positions ⟨returnType, parameters, body⟩)
      (Function.siblings ⟨returnType, parameters, body⟩) := by
  have hpositions : parameters.flatMap Walk.parameter.positions =
      parameters.map Parameter.position := List.map_eq_flatMap.symm
  have hsiblings : parameters.flatMap Walk.parameter.siblings = [] :=
    List.flatMap_eq_nil_iff.2 fun _ _ => rfl
  have hboth := Follows.append hp hb hts
  rw [hpositions, hsiblings] at hboth
  rw [Function.positions, Function.siblings, Element.listPositions_eq_flatMap,
    Element.listSiblings_eq_flatMap]
  exact hboth

/-! ### Sentences -/

mutual

private theorem Sentence.follows {ts : List Token} {element? : Option Element} :
    Sentence ts element? → ts.Pairwise Token.Before →
      ∀ e ∈ element?, Follows ts e.positions e.siblings
  | .empty _, _ => nofun
  | .step h, hts => by
    rintro _ ⟨⟩
    exact h.follows hts
  | @Sentence.returned word ts _ _ h, hts => by
    have hvalue := (h.follows hts.of_cons).widen (List.subset_cons_self word ts)
    rintro _ ⟨⟩
    exact .call "return" true (.all_singleton Walk.value hvalue) hts
  | .call hn _ h he, hts => by
    rintro _ ⟨⟩
    exact (Terminated.plain (.call hn h) he).follows hts
  | .group hl hl' h hr' hr he, hts => by
    have hterminated := Terminated.plain (.group hl (.plain (.group hl' h hr')) hr) he
    simp only [List.cons_append, List.append_assoc, List.nil_append] at hterminated
    rintro _ ⟨⟩
    exact hterminated.follows hts
  | @Sentence.declared ms ts us _ word name _ _ _ _ _ _ _ _ h hb, hts => by
    have hus : us.Sublist (ms ++ word :: (ts ++ name :: us)) :=
      (((List.sublist_cons_self name us).trans (List.sublist_append_right ts _)).cons word).trans
        (List.sublist_append_right ms _)
    have hbound := (h.follows_bound hb (hts.sublist hus)).widen hus.subset
    rintro _ ⟨⟩
    exact follows_declaration hbound hts
  | @Sentence.function ms ps ts us _ func name left right _ returnType _ _ _ _ hp _ _ h _, hts => by
    -- the words before the parameters have no nodes of their own, nor has the return type
    have hinside : (ps ++ (ts ++ left :: (us ++ [right]))).Sublist
        (ms ++ func :: name :: (ps ++ (ts ++ left :: (us ++ [right])))) :=
      (((List.Sublist.refl _).cons name).cons func).trans (List.sublist_append_right ms _)
    have hus : us.Sublist (ts ++ left :: (us ++ [right])) :=
      ((List.sublist_append_left us [right]).cons left).trans (List.sublist_append_right ts _)
    obtain ⟨hps, hbehind, -⟩ := List.pairwise_append.1 (hts.sublist hinside)
    have hbody := Follows.widen (h.follows (hbehind.sublist hus)) hus.subset
    have hfunction :=
      follows_function returnType (hp.follows_parameters hps) hbody (hts.sublist hinside)
    rintro _ ⟨⟩
    exact follows_declaration (hfunction.widen hinside.subset) hts
  | .assigned _ _ _ _ h, hts => by
    have hvalue := h.follows hts.of_cons.of_cons
    rintro _ ⟨⟩
    exact (hvalue.widen (List.subset_cons_of_subset _ (List.subset_cons_self _ _))).node hts

theorem Program.follows {ts : List Token} {elements : List Element} :
    Program ts elements → ts.Pairwise Token.Before → Walk.element.FollowsAll ts elements
  | .nil, _ => .all_nil _ _
  | .cons h hs, hts => by
    obtain ⟨hfirst, hbehind, -⟩ := List.pairwise_append.1 hts
    exact .all_option (h.follows hfirst) (hs.follows hbehind) hts

end

private theorem Gathered.follows {ts : List Token} {elements : List Element}
    (h : Gathered ts elements) (hts : ts.Pairwise Token.Before) :
    Walk.element.FollowsAll ts elements := by
  induction h with
  | nil => exact .all_nil _ _
  | sentence h _ ih =>
    obtain ⟨hfirst, hbehind, -⟩ := List.pairwise_append.1 hts
    exact .all_option (h.follows hfirst) (ih hbehind) hts
  | skipped ts _ ih =>
    exact Follows.widen (ih (List.pairwise_append.1 hts).2.1) (List.subset_append_right _ _)

end Grammar

/-- Where the tokens stand one behind the other, every node of the tree that is read stands at one
of them, no position goes back on a walk of the tree, and siblings stand one behind the other. -/
theorem Settings.parse_follows (file : Option String) (recover verbose : Bool)
    {tokens : List Token} {source : String} {parsed : Parsed}
    (htokens : tokens.Pairwise fun t u => t.position < u.position)
    (h : parse { file, recover, verbose } tokens source = .ok parsed) :
    (∀ p ∈ parsed.root.positions, ∃ t ∈ tokens, t.position = p) ∧
      parsed.root.positions.Pairwise (· ≤ ·) ∧
      ∀ family ∈ parsed.root.siblings, family.Pairwise (· < ·) := by
  have hfollows := (gathered_of_parse h).follows htokens
  rw [Root.positions, Root.siblings, Element.listPositions_eq_flatMap,
    Element.listSiblings_eq_flatMap]
  exact ⟨hfollows.stands, hfollows.sorted, hfollows.apart⟩

/-- A function with two parameters that calls another with a step and a group, a malformed
statement, and an assignment. -/
theorem Settings.parse_follows_recovering :
    let tokens := (["func", "f", "(", "int", "a", ",", "int", "b", ")", "void", "\x7b", "g", "(",
      "x", "++", ";", ",", "(", "y", ")", ")", ";", "\x7d", "5", ";", "z", "=", "1", ";"].zipIdx).map
        fun (text, column) => (⟨⟨0, column⟩, text⟩ : Token)
    (tokens.Pairwise fun t u => t.position < u.position) ∧
      ∃ parsed, parse { recover := true } tokens "" = .ok parsed ∧
        parsed.errors.length = 1 ∧
        parsed.root.positions = ([0, 3, 6, 11, 13, 13, 18, 25, 27].map fun column => ⟨0, column⟩) ∧
        parsed.root.siblings = ([[0, 25], [3, 6], [11], [13, 18], [13]].map
          (·.map fun column => ⟨0, column⟩)) ∧
        (∀ p ∈ parsed.root.positions, ∃ t ∈ tokens, t.position = p) ∧
        parsed.root.positions.Pairwise (· ≤ ·) ∧
        ∀ family ∈ parsed.root.siblings, family.Pairwise (· < ·) := by
  intro tokens
  have htokens : tokens.Pairwise fun t u => t.position < u.position := by decide
  have hread : (parse { recover := true } tokens "").toOption.map (fun parsed =>
        (parsed.errors.length, parsed.root.positions, parsed.root.siblings)) =
      some (1, [0, 3, 6, 11, 13, 13, 18, 25, 27].map fun column => ⟨0, column⟩,
        [[0, 25], [3, 6], [11], [13, 18], [13]].map (·.map fun column => ⟨0, column⟩)) := by
    decide +kernel
  obtain ⟨parsed, hparse, hread⟩ := exists_parse_of_map_eq hread
  obtain ⟨herrors, hnodes⟩ := Prod.mk.inj hread
  obtain ⟨hpositions, hsiblings⟩ := Prod.mk.inj hnodes
  exact ⟨htokens, parsed, hparse, herrors, hpositions, hsiblings,
    parse_follows none true false htokens hparse⟩

end Script
