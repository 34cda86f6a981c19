import UtilityCss.Proofs.TreePaths

/-!
# The verdict on a document

A document is accepted if every block in it belongs to a layer that some `@tailwind` rule declares,
wherever the two stand.  The check looks at the at-rules in document order, and not at all if the three
layers a block can belong to are all declared.

* **Declarations** — `has_iff_declares`: for these three layers, the registry holds exactly what the
  document declares.
* **Violations** — `Violates nodes node e` says what is wrong with a node, without registry and check.
  `nodeError?_eq_some_iff` compares the two, and `firstError?_eq_findSome?` says that looking away when
  all layers are declared misses nothing.
* **Respelling** — `follow?_modernizeAll`: every path leads to the same node before and after, respelled.
  `atRules_modernizeAll` says the same of at-rules, so nothing comes out differently the second time.
-/

namespace UtilityCss

/-- A node without its children. -/
def Node.childless : Node → Node
  | .rule selector _ hasBlock span => .rule selector [] hasBlock span
  | .declaration property value important span => .declaration property value important span
  | .comment text span => .comment text span

namespace Directive

/-! ## Declarations -/

/-- Some `@tailwind` rule of the document names the layer. -/
def Declares (nodes : List Node) (layer : String) : Prop :=
  ∃ path node, Node.follow? nodes path = some node ∧ node.atRule? = some ("tailwind", layer)

/-- They come in the order of their paths. -/
lemma atRules_eq_filterMap (nodes : List Node) :
    atRules nodes = (spots nodes).filterMap fun spot => atRuleOf? spot.2 := by
  have hlists := congrArg (List.filterMap atRuleOf?) (spotsBelow_map_snd [] 0 0 nodes)
  rw [List.filterMap_map, List.filterMap_map] at hlists
  exact hlists.symm

/-- An at-rule of a document is a node at some path. -/
lemma mem_atRules {nodes : List Node} {rule : AtRule} :
    rule ∈ atRules nodes ↔
      ∃ path node, Node.follow? nodes path = some node ∧ atRuleOf? node = some rule := by
  simp only [atRules_eq_filterMap, List.mem_filterMap, Prod.exists, mem_spots]

/-- The old name of a layer is none of the names that a block can have. -/
lemma declared?_eq_some_iff {rule : AtRule} {layer : String} (hlayer : layer ∈ Registry.coreLayers) :
    rule.declared? = some layer ↔ rule.name = "tailwind" ∧ rule.params = layer := by
  simp only [Registry.coreLayers, List.mem_cons, List.not_mem_nil, or_false] at hlayer
  simp only [AtRule.declared?, beq_iff_eq, Option.ite_none_right_eq_some, Option.some.injEq]
  refine and_congr_right fun _ => ?_
  split_ifs with hscreens
  · rcases hlayer with rfl | rfl | rfl <;> simp [hscreens]
  · rfl

/-- The registry holds the layers that the document declares. -/
lemma has_iff_declares {nodes : List Node} {layer : String} (hlayer : layer ∈ Registry.coreLayers) :
    (registryOf (atRules nodes)).has layer = true ↔ Declares nodes layer := by
  rw [Registry.has, registryOf, List.contains_iff_mem, Names.mem_sorted, List.mem_filterMap]
  simp only [mem_atRules, declared?_eq_some_iff hlayer]
  constructor
  · rintro ⟨rule, ⟨path, node, hfollow, hrule⟩, hname, hparams⟩
    obtain ⟨⟨name, params⟩, hat, rfl⟩ := Option.map_eq_some_iff.1 hrule
    obtain rfl : name = "tailwind" := hname
    obtain rfl : params = layer := hparams
    exact ⟨path, node, hfollow, hat⟩
  · rintro ⟨path, node, hfollow, hat⟩
    exact ⟨_, ⟨path, node, hfollow, by rw [atRuleOf?, hat]; rfl⟩, rfl, rfl⟩

/-! ## Violations -/

/-- What is wrong with a node of a document: it is a block of a layer that is not declared, or a block
in old spelling, which belongs to the utilities. -/
inductive Violates (nodes : List Node) : Node → DirectiveError → Prop
  | layer {node : Node} {layer : String} (hlayer : layer ∈ ["base", "components", "utilities"])
      (hrule : node.atRule? = some ("layer", layer)) (hnone : ¬ Declares nodes layer) :
      Violates nodes node (.layerWithoutDirective layer (node.span.getD .nowhere))
  | legacy {node : Node} {name params : String} (hname : name ∈ ["responsive", "variants"])
      (hrule : node.atRule? = some (name, params)) (hnone : ¬ Declares nodes "utilities") :
      Violates nodes node (.legacyWithoutUtilities name (node.span.getD .nowhere))

/-- The error that the check finds at a node of a document. -/
def nodeError? (nodes : List Node) (node : Node) : Option DirectiveError :=
  (atRuleOf? node).bind (blockError? (registryOf (atRules nodes)))

/-- The check finds what is wrong with a node. -/
lemma nodeError?_eq_some_iff {nodes : List Node} {node : Node} {e : DirectiveError} :
    nodeError? nodes node = some e ↔ Violates nodes node e := by
  have hutilities : "utilities" ∈ Registry.coreLayers := by decide
  constructor
  · intro h
    obtain ⟨rule, hrule, herror⟩ := Option.bind_eq_some_iff.1 h
    obtain ⟨⟨name, params⟩, hat, rfl⟩ := Option.map_eq_some_iff.1 hrule
    simp only [blockError?, beq_iff_eq] at herror
    split_ifs at herror with hname hlayer hlegacy
    · obtain ⟨hcore, hhas⟩ : params ∈ Registry.coreLayers ∧
          (registryOf (atRules nodes)).has params = false := by simpa using hlayer
      obtain rfl := Option.some.inj herror
      refine .layer hcore (hname ▸ hat) fun hdeclares => ?_
      rw [(has_iff_declares hcore).2 hdeclares] at hhas
      cases hhas
    · obtain ⟨hold, hhas⟩ : (name = "responsive" ∨ name = "variants") ∧
          (registryOf (atRules nodes)).has "utilities" = false := by
        simpa [AtRule.isLegacy] using hlegacy
      obtain rfl := Option.some.inj herror
      refine .legacy (by simpa using hold) hat fun hdeclares => ?_
      rw [(has_iff_declares hutilities).2 hdeclares] at hhas
      cases hhas
  · intro h
    cases h with
    | @layer layer hlayer hrule hnone =>
        have hhas : (registryOf (atRules nodes)).has layer = false := by
          rwa [← Bool.not_eq_true, has_iff_declares hlayer]
        have hcore : layer ∈ Registry.coreLayers := hlayer
        simp [nodeError?, atRuleOf?, hrule, blockError?, hcore, hhas, AtRule.place]
    | @legacy name params hname hrule hnone =>
        have hhas : (registryOf (atRules nodes)).has "utilities" = false := by
          rwa [← Bool.not_eq_true, has_iff_declares hutilities]
        simp only [List.mem_cons, List.not_mem_nil, or_false] at hname
        rcases hname with rfl | rfl <;>
          simp [nodeError?, atRuleOf?, hrule, blockError?, hhas, AtRule.isLegacy, AtRule.place]

/-- No error is shown exactly for what violates nothing. -/
lemma nodeError?_eq_none_iff {nodes : List Node} {node : Node} :
    nodeError? nodes node = none ↔ ∀ e, ¬ Violates nodes node e := by
  rw [Option.eq_none_iff_forall_ne_some]
  exact forall_congr' fun e => not_congr nodeError?_eq_some_iff

/-- If all layers are declared, no block has an error. -/
lemma blockError?_of_hasAllCore {registry : Registry} (h : registry.hasAllCore = true)
    (rule : AtRule) : blockError? registry rule = none := by
  have hall : ∀ layer ∈ Registry.coreLayers, registry.has layer = true := by
    simpa [Registry.hasAllCore] using h
  have hutilities := hall "utilities" (by decide)
  rw [blockError?]
  split_ifs with hname hlayer hlegacy
  · obtain ⟨hcore, hhas⟩ : rule.params ∈ Registry.coreLayers ∧
        registry.has rule.params = false := by simpa using hlayer
    rw [hall _ hcore] at hhas
    cases hhas
  · rfl
  · simp [hutilities] at hlegacy
  · rfl

/-- Looking away if all layers are declared misses nothing. -/
lemma firstError?_eq_findSome? (registry : Registry) (rules : List AtRule) :
    firstError? registry rules = rules.findSome? (blockError? registry) := by
  rw [firstError?]
  split_ifs with hall
  · rw [eq_comm, List.findSome?_eq_none_iff]
    exact fun rule _ => blockError?_of_hasAllCore hall rule
  · rfl

/-- The first error, looked for at the nodes themselves. -/
lemma firstError?_eq_spots (nodes : List Node) :
    firstError? (registryOf (atRules nodes)) (atRules nodes)
      = (spots nodes).findSome? fun spot => nodeError? nodes spot.2 := by
  simp only [firstError?_eq_findSome?, nodeError?]
  generalize blockError? (registryOf (atRules nodes)) = error?
  rw [atRules_eq_filterMap, ← List.head?_filterMap, ← List.head?_filterMap,
    List.filterMap_filterMap]

/-- The review shows the first error. -/
lemma review_eq_error_iff {nodes : List Node} {sink : Sink} {e : DirectiveError} :
    (review nodes sink).1 = .error e ↔
      firstError? (registryOf (atRules nodes)) (atRules nodes) = some e := by
  simp only [review]
  cases firstError? (registryOf (atRules nodes)) (atRules nodes) <;> simp

/-- Without an error it shows the registry. -/
lemma review_eq_ok_iff {nodes : List Node} {sink : Sink} {registry : Registry} :
    (review nodes sink).1 = .ok registry ↔
      firstError? (registryOf (atRules nodes)) (atRules nodes) = none ∧
        registryOf (atRules nodes) = registry := by
  simp only [review]
  cases firstError? (registryOf (atRules nodes)) (atRules nodes) <;> simp

/-- A document without violations has all the layers that its blocks need, and the other way round. -/
lemma not_violates_iff {nodes : List Node} {node : Node} :
    (∀ e, ¬ Violates nodes node e) ↔
      (∀ layer ∈ ["base", "components", "utilities"], node.atRule? = some ("layer", layer) →
        Declares nodes layer) ∧
      ∀ name ∈ ["responsive", "variants"], ∀ params, node.atRule? = some (name, params) →
        Declares nodes "utilities" := by
  constructor
  · intro h
    constructor
    · intro layer hlayer hrule
      by_contra hnone
      exact h _ (.layer hlayer hrule hnone)
    · intro name hname params hrule
      by_contra hnone
      exact h _ (.legacy hname hrule hnone)
  · rintro ⟨hlayers, hlegacy⟩ e (⟨hlayer, hrule, hnone⟩ | ⟨hname, hrule, hnone⟩)
    · exact hnone (hlayers _ hlayer hrule)
    · exact hnone (hlegacy _ hname _ hrule)

/-! ## Respelling -/

/-- A rule that reads `@tailwind screens` reads `@tailwind variants` instead. -/
def respelled : Node → Node
  | .rule selector nodes hasBlock span =>
    if (Node.rule selector nodes hasBlock span).atRule? = some ("tailwind", "screens") then
      .rule "@tailwind variants" nodes hasBlock span
    else .rule selector nodes hasBlock span
  | .declaration property value important span => .declaration property value important span
  | .comment text span => .comment text span

lemma modernizeAll_eq_map (nodes : List Node) : modernizeAll nodes = nodes.map modernize := by
  induction nodes with
  | nil => rfl
  | cons node rest ih => rw [modernizeAll, ih, List.map_cons]

/-- Apart from its children, a node is respelled. -/
lemma childless_modernize (node : Node) :
    (modernize node).childless = respelled node.childless := by
  cases node with
  | rule selector nodes hasBlock span =>
      by_cases hscreens : Node.splitAtRule? selector.toList = some ("tailwind", "screens") <;>
        simp [modernize, Node.childless, respelled, isScreens, Node.atRule?, hscreens]
  | declaration property value important span => rfl
  | comment text span => rfl

/-- A path leads to the respelled node. -/
lemma descend?_modernize (node : Node) (path : List Nat) :
    (modernize node).descend? path = (node.descend? path).map modernize := by
  induction path generalizing node with
  | nil => simp
  | cons index path ih =>
      cases node with
      | rule selector nodes hasBlock span =>
          rw [modernize, Node.descend?, Node.descend?, modernizeAll_eq_map, List.getElem?_map]
          cases nodes[index]? with
          | none => rfl
          | some child => exact ih child
      | declaration property value important span => rfl
      | comment text span => rfl

/-- Every path leads to the same node, respelled. -/
lemma follow?_modernizeAll (nodes : List Node) (path : List Nat) :
    Node.follow? (modernizeAll nodes) path = (Node.follow? nodes path).map modernize := by
  cases path with
  | nil => rfl
  | cons index path =>
      rw [Node.follow?, Node.follow?, modernizeAll_eq_map, List.getElem?_map]
      cases nodes[index]? with
      | none => rfl
      | some node => exact descend?_modernize node path

mutual

lemma spotsAt_modernize (path : List Nat) (node : Node) :
    spotsAt path (modernize node)
      = (spotsAt path node).map fun spot => (spot.1, modernize spot.2) := by
  cases node with
  | rule selector nodes hasBlock span =>
      rw [spotsAt, List.map_cons, ← spotsBelow_modernizeAll path 0 nodes]
      rfl
  | declaration property value important span => rfl
  | comment text span => rfl

/-- Every spot keeps its path. -/
lemma spotsBelow_modernizeAll (path : List Nat) (index : Nat) (nodes : List Node) :
    spotsBelow path index (modernizeAll nodes)
      = (spotsBelow path index nodes).map fun spot => (spot.1, modernize spot.2) := by
  cases nodes with
  | nil => rfl
  | cons node rest =>
      rw [modernizeAll, spotsBelow, spotsBelow, List.map_append,
        spotsAt_modernize (path ++ [index]) node, spotsBelow_modernizeAll path (index + 1) rest]

end

/-- An at-rule in modern spelling. -/
def AtRule.modern (rule : AtRule) : AtRule :=
  if rule.name = "tailwind" ∧ rule.params = "screens" then { rule with params := "variants" } else rule

lemma atRuleOf?_modernize (node : Node) :
    atRuleOf? (modernize node) = (atRuleOf? node).map AtRule.modern := by
  cases node with
  | rule selector nodes hasBlock span =>
      have hnew : Node.splitAtRule? "@tailwind variants".toList = some ("tailwind", "variants") := by
        decide +kernel
      simp only [modernize, atRuleOf?, Node.atRule?, isScreens, beq_iff_eq, Node.span]
      split_ifs with hscreens
      · rw [hnew, hscreens]
        rfl
      · cases hsplit : Node.splitAtRule? selector.toList with
        | none => rfl
        | some head =>
            obtain ⟨name, params⟩ := head
            have hold : ¬ (name = "tailwind" ∧ params = "screens") := by
              rintro ⟨rfl, rfl⟩
              exact hscreens hsplit
            simp [AtRule.modern, hold]
  | declaration property value important span => rfl
  | comment text span => rfl

/-- The at-rules are those of the document, respelled. -/
lemma atRules_modernizeAll (nodes : List Node) :
    atRules (modernizeAll nodes) = (atRules nodes).map AtRule.modern := by
  rw [atRules_eq_filterMap, atRules_eq_filterMap, spots, spotsBelow_modernizeAll, List.filterMap_map,
    List.map_filterMap]
  exact congrArg (List.filterMap · _) (funext fun spot => atRuleOf?_modernize spot.2)

section modern
variable (rule : AtRule)

/-- A respelled at-rule declares the same layer. -/
lemma declared?_modern : rule.modern.declared? = rule.declared? := by
  rw [AtRule.modern]
  split_ifs with h
  · simp [AtRule.declared?, h]
  · rfl

/-- Respelling an at-rule applies no other candidates. -/
lemma apply?_modern : rule.modern.apply? = rule.apply? := by
  rw [AtRule.modern]
  split_ifs with h
  · simp [ AtRule.apply?, h]
  · rfl

/-- A respelled at-rule is the same error, if it is one. -/
lemma blockError?_modern (registry : Registry) :
    blockError? registry rule.modern = blockError? registry rule := by
  rw [AtRule.modern]
  split_ifs with h
  · simp [blockError?, AtRule.isLegacy, h]
  · rfl

end modern

lemma registryOf_modernizeAll (nodes : List Node) :
    registryOf (atRules (modernizeAll nodes)) = registryOf (atRules nodes) := by
  have hdeclared : AtRule.declared? ∘ AtRule.modern = AtRule.declared? := funext declared?_modern
  have happly : AtRule.apply? ∘ AtRule.modern = AtRule.apply? := funext apply?_modern
  rw [atRules_modernizeAll, registryOf, registryOf, List.filterMap_map, List.filterMap_map, hdeclared,
    happly]

lemma firstError?_modernizeAll (nodes : List Node) (registry : Registry) :
    firstError? registry (atRules (modernizeAll nodes)) = firstError? registry (atRules nodes) := by
  have herror : blockError? registry ∘ AtRule.modern = blockError? registry :=
    funext (blockError?_modern · registry)
  rw [firstError?_eq_findSome?, firstError?_eq_findSome?, atRules_modernizeAll, List.findSome?_map,
    herror]

/-- A selector is respelled once. -/
lemma isScreens_modern (selector : String) :
    isScreens (if isScreens selector then "@tailwind variants" else selector) = false := by
  split_ifs with h
  · decide +kernel
  · simpa using h

mutual

lemma modernize_modernize (node : Node) : modernize (modernize node) = modernize node := by
  cases node with
  | rule selector nodes hasBlock span =>
      rw [modernize, modernize, isScreens_modern, modernizeAll_modernizeAll nodes]
      rfl
  | declaration property value important span => rfl
  | comment text span => rfl

/-- A document is respelled once. -/
lemma modernizeAll_modernizeAll (nodes : List Node) :
    modernizeAll (modernizeAll nodes) = modernizeAll nodes := by
  cases nodes with
  | nil => rfl
  | cons node rest =>
      rw [modernizeAll, modernizeAll, modernize_modernize node, modernizeAll_modernizeAll rest]

end

/-! ## The verdict -/

/-- **The verdict is exact.**  A document is accepted exactly if every block of a layer and every block
in old spelling finds its `@tailwind` rule somewhere in the document, and looking away when all layers
are declared makes no difference.  Otherwise the error is that of the first violation in document order.
In both cases the document keeps every node at its path, but for the spelling of `@tailwind screens`,
and a second review says the same and changes nothing. -/
theorem review_exact (nodes : List Node) (sink : Sink) :
    ((∃ registry, (review nodes sink).1 = .ok registry) ↔
      ∀ path node, Node.follow? nodes path = some node →
        (∀ layer ∈ ["base", "components", "utilities"], node.atRule? = some ("layer", layer) →
          Declares nodes layer) ∧
        ∀ name ∈ ["responsive", "variants"], ∀ params, node.atRule? = some (name, params) →
          Declares nodes "utilities") ∧
    (∀ e, (review nodes sink).1 = .error e ↔
      ∃ path node, Node.follow? nodes path = some node ∧ Violates nodes node e ∧
        ∀ path' < path, ∀ node', Node.follow? nodes path' = some node' →
          ∀ e', ¬ Violates nodes node' e') ∧
    firstError? (registryOf (atRules nodes)) (atRules nodes)
      = (atRules nodes).findSome? (blockError? (registryOf (atRules nodes))) ∧
    (∀ path, (Node.follow? (review nodes sink).2.1 path).map Node.childless
      = (Node.follow? nodes path).map fun node => respelled node.childless) ∧
    (∀ sink', (review (review nodes sink).2.1 sink').1 = (review nodes sink).1 ∧
      (review (review nodes sink).2.1 sink').2.1 = (review nodes sink).2.1) ∧
    normalize nodes sink
      = ((review nodes sink).1.map (·, (review nodes sink).2.1), (review nodes sink).2.2) := by
  refine ⟨?_, fun e => ?_, firstError?_eq_findSome? _ _, fun path => ?_, fun sink' => ⟨?_, ?_⟩, rfl⟩
  · simp only [review_eq_ok_iff, exists_and_left, exists_eq', and_true, firstError?_eq_spots,
      findSome?_spots_eq_none_iff (nodeError? nodes), nodeError?_eq_none_iff, not_violates_iff]
  · simp only [review_eq_error_iff, firstError?_eq_spots,
      findSome?_spots_eq_some_iff (nodeError? nodes), nodeError?_eq_some_iff,
      nodeError?_eq_none_iff]
  · have hdocument : (review nodes sink).2.1 = modernizeAll nodes := rfl
    rw [hdocument, follow?_modernizeAll, Option.map_map]
    exact congrArg (Option.map · _) (funext childless_modernize)
  · simp only [review, registryOf_modernizeAll, firstError?_modernizeAll]
  · exact modernizeAll_modernizeAll nodes

/-- The name of an at-rule ends at a blank or a bracket.  A block in another rule finds the `@tailwind`
rule behind it; without that rule it is an error, and a block of another name is none. -/
example :
    Node.atRule? (.rule "@layer\t base " [] true none) = some ("layer", "base") ∧
      Node.atRule? (.rule "@variants(hover)" [] true none) = some ("variants", "(hover)") ∧
      (review [.rule "@media print" [.rule "@layer\t base " [] true none] true none,
        .rule "@tailwind base" [] false none] .empty).1.toOption.map Registry.layers = some ["base"] ∧
      (review [.rule "@variants(hover)" [] true none] .empty).1
        = .error (.legacyWithoutUtilities "variants" .nowhere) ∧
      (review [.rule "@variantsOf(hover)" [] true none] .empty).1.toOption.map Registry.layers
        = some [] := by
  decide +kernel

end Directive

end UtilityCss
