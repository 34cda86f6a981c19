import UtilityCss.Proofs.MergeShape

/-!
# Where declarations stand

A declaration is `Placed` by the chain of rules around it, outermost first.  Each step of `merge`
moves placed declarations in a way that can be said in one equation.

* `placedAll_unwrapAll`: taking blocks apart removes them from every chain, and nothing else.
* `placedAll_fillAll`: filling directives keeps what stood outside them and adds, under the chain of
  each directive that gives way, what is put there.  `replacedAll` lists these directives.
* `outside_fillAll`: a declaration outside all directives is among those kept.
* `placed_backfill`: generated declarations have their own span or that of their directive.
-/

namespace UtilityCss.Directive

/-- A rule as it encloses others. -/
structure Head where
  selector : String
  hasBlock : Bool
  span : Option Span
  deriving DecidableEq

/-- A declaration and the rules around it, outermost first. -/
structure Placed where
  chain : List Head
  property : String
  value : String
  important : Bool
  span : Option Span
  deriving DecidableEq

/-- A declaration with more rules around it. -/
def Placed.under (front : List Head) (p : Placed) : Placed :=
  { p with chain := front ++ p.chain }

mutual

/-- The declarations of a tree below a chain of rules, in document order. -/
def placed (chain : List Head) : Node → List Placed
  | .rule selector nodes hasBlock span => placedAll (chain ++ [⟨selector, hasBlock, span⟩]) nodes
  | .declaration property value important span => [⟨chain, property, value, important, span⟩]
  | .comment _ _ => []

/-- The declarations of a forest under some rules. -/
def placedAll (chain : List Head) : List Node → List Placed
  | [] => []
  | node :: rest => placed chain node ++ placedAll chain rest

end

/-- Those of two forests are those of the first and then those of the second. -/
lemma placedAll_append (chain : List Head) (a b : List Node) :
    placedAll chain (a ++ b) = placedAll chain a ++ placedAll chain b := by
  induction a with
  | nil => rfl
  | cons node rest ih => simp [placedAll, ih]

lemma placedAll_singleton (chain : List Head) (node : Node) :
    placedAll chain [node] = placed chain node := by
  simp [placedAll]

lemma placedAll_flatMap {α : Type} (chain : List Head) (f : α → List Node) (l : List α) :
    placedAll chain (l.flatMap f) = l.flatMap fun x => placedAll chain (f x) := by
  induction l with
  | nil => rfl
  | cons x l ih => rw [List.flatMap_cons, placedAll_append, ih, List.flatMap_cons]

lemma placedAll_eq_flatMap (chain : List Head) (nodes : List Node) :
    placedAll chain nodes = nodes.flatMap (placed chain) := by
  induction nodes with
  | nil => rfl
  | cons node rest ih => rw [placedAll, ih, List.flatMap_cons]

mutual

/-- Rules around a tree are around all its declarations. -/
lemma placed_under (front chain : List Head) (node : Node) :
    placed (front ++ chain) node = (placed chain node).map (Placed.under front) := by
  cases node with
  | rule selector nodes hasBlock span =>
      rw [placed, placed, List.append_assoc, placedAll_under]
  | declaration property value important span => rfl
  | comment text span => rfl

/-- Rules around a forest stand in front of every chain in it. -/
lemma placedAll_under (front chain : List Head) (nodes : List Node) :
    placedAll (front ++ chain) nodes = (placedAll chain nodes).map (Placed.under front) := by
  cases nodes with
  | nil => rfl
  | cons node rest =>
      rw [placedAll, placedAll, List.map_append, placed_under, placedAll_under]

end

lemma placedAll_eq_map_under (chain : List Head) (nodes : List Node) :
    placedAll chain nodes = (placedAll [] nodes).map (Placed.under chain) := by
  rw [← placedAll_under, List.append_nil]

/-! ## Taking blocks apart -/

/-- Whether a rule is a block that adds to a layer. -/
def Head.isWrapper (head : Head) : Bool :=
  (blockLayer? head.selector).isSome

/-- The rules of a chain that are no blocks of layers. -/
def withoutWrappers (chain : List Head) : List Head :=
  chain.filter fun head => !head.isWrapper

lemma withoutWrappers_cons (head : Head) (chain : List Head) :
    withoutWrappers (head :: chain) =
      if head.isWrapper then withoutWrappers chain else head :: withoutWrappers chain := by
  rw [withoutWrappers, List.filter_cons]
  cases head.isWrapper <;> rfl

/-- The declaration as it stands once blocks are taken apart. -/
def Placed.unwrapped (p : Placed) : Placed :=
  { p with chain := withoutWrappers p.chain }

mutual

lemma placedAll_unwrap (chain : List Head) (node : Node) :
    placedAll chain (unwrap node) =
      (placed [] node).map fun p => p.unwrapped.under chain := by
  cases node with
  | rule selector nodes hasBlock span =>
      rw [unwrap, placed, List.nil_append, placedAll_eq_map_under [⟨selector, hasBlock, span⟩],
        List.map_map]
      split_ifs with hblock
      · rw [placedAll_unwrapAll]
        refine List.map_congr_left fun p _ => ?_
        simp [Placed.under, Placed.unwrapped, withoutWrappers_cons, Head.isWrapper, hblock]
      · rw [placedAll_singleton, placed, placedAll_unwrapAll]
        refine List.map_congr_left fun p _ => ?_
        simp [Placed.under, Placed.unwrapped, withoutWrappers_cons, Head.isWrapper, hblock]
  | declaration property value important span =>
      simp [unwrap, placedAll, placed, Placed.under, Placed.unwrapped, withoutWrappers]
  | comment text span => simp [unwrap, placedAll, placed]

/-- Taking blocks apart removes them from every chain. -/
lemma placedAll_unwrapAll (chain : List Head) (nodes : List Node) :
    placedAll chain (unwrapAll nodes) =
      (placedAll [] nodes).map fun p => p.unwrapped.under chain := by
  cases nodes with
  | nil => rfl
  | cons node rest =>
      rw [unwrapAll, placedAll_append, placedAll_unwrap, placedAll_unwrapAll, placedAll,
        List.map_append]

end

/-! ## Filling directives -/

mutual

/-- The directives of a tree that give way when it is filled, each with its span and the rules
around it. -/
def replaced (later : List Layer) (chain : List Head) :
    Node → List (Layer × Option Span × List Head)
  | .rule selector nodes hasBlock span =>
    let inner := replacedAll later (chain ++ [⟨selector, hasBlock, span⟩]) nodes
    match declaredLayer? selector with
    | some layer => if layer ∈ layersOf nodes ++ later then inner else [(layer, span, chain)]
    | none => inner
  | .declaration .. => []
  | .comment .. => []

/-- The directives of a forest that are replaced: those with no later one of their layer. -/
def replacedAll (later : List Layer) (chain : List Head) :
    List Node → List (Layer × Option Span × List Head)
  | [] => []
  | node :: rest =>
    replaced (layersOf rest ++ later) chain node ++ replacedAll later chain rest

end

/-- The contents that are put in place of directives, under the chains of these. -/
def placedContents (new : Layer → Option Span → List Node)
    (sites : List (Layer × Option Span × List Head)) : List Placed :=
  sites.flatMap fun site => placedAll site.2.2 (new site.1 site.2.1)

mutual

/-- Filled is what stands aside of the directives, and what is put in place of each. -/
lemma placedAll_fill (new : Layer → Option Span → List Node) (later : List Layer)
    (chain : List Head) (node : Node) :
    (placedAll chain (fill new later node)).Perm
      (placedAll chain (fill (fun _ _ => []) later node) ++
        placedContents new (replaced later chain node)) := by
  cases node with
  | rule selector nodes hasBlock span =>
      have hchildren := placedAll_fillAll new later (chain ++ [⟨selector, hasBlock, span⟩]) nodes
      rw [fill, fill, replaced]
      cases declaredLayer? selector with
      | none => simpa [placedAll_singleton, placed] using hchildren
      | some layer =>
          dsimp only
          split_ifs with hlater
          · simpa [placedAll_singleton, placed] using hchildren
          · simp [placedContents, placedAll]
  | declaration property value important span => simp [fill, replaced, placedContents]
  | comment text span => simp [fill, replaced, placedContents]

/-- Filling keeps what it does not replace and adds the contents of what it does. -/
lemma placedAll_fillAll (new : Layer → Option Span → List Node) (later : List Layer)
    (chain : List Head) (nodes : List Node) :
    (placedAll chain (fillAll new later nodes)).Perm
      (placedAll chain (fillAll (fun _ _ => []) later nodes) ++
        placedContents new (replacedAll later chain nodes)) := by
  cases nodes with
  | nil => simp [fillAll, replacedAll, placedContents, placedAll]
  | cons node rest =>
      have hnode := placedAll_fill new (layersOf rest ++ later) chain node
      have hrest := placedAll_fillAll new later chain rest
      rw [fillAll, fillAll, replacedAll, placedAll_append, placedAll_append, placedContents,
        List.flatMap_append]
      refine (hnode.append hrest).trans ?_
      simp only [List.append_assoc, placedContents]
      exact List.Perm.append_left _ (List.perm_append_comm_assoc _ _ _)

end

/-- Whether a declaration stands outside all directives. -/
def Placed.outside (p : Placed) : Bool :=
  p.chain.all fun head => (declaredLayer? head.selector).isNone

mutual

lemma fill_empty_sublist (later : List Layer) (chain : List Head) (node : Node) :
    (placedAll chain (fill (fun _ _ => []) later node)).Sublist (placed chain node) := by
  cases node with
  | rule selector nodes hasBlock span =>
      have hchildren := fillAll_empty_sublist later (chain ++ [⟨selector, hasBlock, span⟩]) nodes
      rw [fill]
      cases declaredLayer? selector with
      | none => simpa [placedAll_singleton, placed] using hchildren
      | some layer =>
          dsimp only
          split_ifs with hlater
          · simpa [placedAll_singleton, placed] using hchildren
          · exact List.nil_sublist _
  | declaration property value important span => simp [fill, placedAll]
  | comment text span => simp [fill, placedAll]

lemma fillAll_empty_sublist (later : List Layer) (chain : List Head) (nodes : List Node) :
    (placedAll chain (fillAll (fun _ _ => []) later nodes)).Sublist (placedAll chain nodes) := by
  cases nodes with
  | nil => exact List.Sublist.refl _
  | cons node rest =>
      rw [fillAll, placedAll_append, placedAll]
      exact (fill_empty_sublist _ chain node).append (fillAll_empty_sublist later chain rest)

end

lemma not_outside_of_mem {head : Head} {chain : List Head} {nodes : List Node}
    (hhead : (declaredLayer? head.selector).isSome = true) {p : Placed}
    (hp : p ∈ placedAll (chain ++ [head]) nodes) : p.outside = false := by
  rw [placedAll_eq_map_under, List.mem_map] at hp
  obtain ⟨q, -, rfl⟩ := hp
  rw [Placed.outside, List.all_eq_false]
  refine ⟨head, by simp [Placed.under], ?_⟩
  rw [Option.isNone_iff_eq_none]
  exact Option.isSome_iff_ne_none.1 hhead

mutual

/-- A declaration outside all directives stays where it is. -/
lemma outside_fill (later : List Layer) (chain : List Head) (node : Node) :
    (placedAll chain (fill (fun _ _ => []) later node)).filter Placed.outside =
      (placed chain node).filter Placed.outside := by
  cases node with
  | rule selector nodes hasBlock span =>
      have hchildren := outside_fillAll later (chain ++ [⟨selector, hasBlock, span⟩]) nodes
      rw [fill]
      cases hlayer : declaredLayer? selector with
      | none => simpa [placedAll_singleton, placed] using hchildren
      | some layer =>
          dsimp only
          split_ifs with hlater
          · simpa [placedAll_singleton, placed] using hchildren
          · -- The rule gives way: all it held stood inside a directive.
            rw [placed, placedAll, List.filter_nil, eq_comm, List.filter_eq_nil_iff]
            intro p hp
            rw [not_outside_of_mem (by simp [hlayer]) hp]
            exact Bool.false_ne_true
  | declaration property value important span => simp [fill, placedAll]
  | comment text span => simp [fill, placedAll]

/-- Declarations outside all directives are kept. -/
lemma outside_fillAll (later : List Layer) (chain : List Head) (nodes : List Node) :
    (placedAll chain (fillAll (fun _ _ => []) later nodes)).filter Placed.outside =
      (placedAll chain nodes).filter Placed.outside := by
  cases nodes with
  | nil => rfl
  | cons node rest =>
      rw [fillAll, placedAll_append, placedAll, List.filter_append, List.filter_append,
        outside_fill, outside_fillAll]

end

/-- A declaration outside all directives that a test picks out of a forest is still picked out of
what is kept. -/
lemma filter_fillAll_of_outside {nodes : List Node} {test : Placed → Bool} {p : Placed}
    (hfilter : (placedAll [] nodes).filter test = [p]) (hout : p.outside = true)
    (later : List Layer) :
    (placedAll [] (fillAll (fun _ _ => []) later nodes)).filter test = [p] := by
  have hp : p ∈ (placedAll [] nodes).filter test := by simp [hfilter]
  rw [List.mem_filter] at hp
  have hkept : p ∈ placedAll [] (fillAll (fun _ _ => []) later nodes) := by
    have : p ∈ (placedAll [] nodes).filter Placed.outside := List.mem_filter.2 ⟨hp.1, hout⟩
    rw [← outside_fillAll later, List.mem_filter] at this
    exact this.1
  have hsub := (fillAll_empty_sublist later [] nodes).filter test
  rw [hfilter] at hsub
  rcases List.sublist_singleton.1 hsub with hnil | hsingle
  · have := List.mem_filter.2 ⟨hkept, hp.2⟩
    simp [hnil] at this
  · exact hsingle

/-! ## One directive for each layer -/

mutual

/-- One directive of each layer is replaced at most, and none that has a later one. -/
lemma replaced_layers (later : List Layer) (chain : List Head) (node : Node) :
    ((replaced later chain node).map Prod.fst).Nodup ∧
      ∀ layer ∈ (replaced later chain node).map Prod.fst,
        layer ∈ layersOf [node] ∧ layer ∉ later := by
  cases node with
  | rule selector nodes hasBlock span =>
      have hchildren := replacedAll_layers later (chain ++ [⟨selector, hasBlock, span⟩]) nodes
      have hlayers : ∀ layer ∈ layersOf nodes,
          layer ∈ layersOf [.rule selector nodes hasBlock span] := by
        intro layer hlayer
        simp only [layersOf, directives_rule, directives_nil, List.append_nil, List.map_append,
          List.mem_append] at hlayer ⊢
        exact Or.inr hlayer
      have hinner := fun layer h => (hchildren.2 layer h).imp_left (hlayers layer)
      rw [replaced]
      cases hlayer : declaredLayer? selector with
      | none => exact ⟨hchildren.1, hinner⟩
      | some layer =>
          dsimp only
          split_ifs with hlater
          · exact ⟨hchildren.1, hinner⟩
          · rw [List.mem_append, not_or] at hlater
            simp [layersOf, hlayer, hlater.2]
  | declaration property value important span => simp [replaced]
  | comment text span => simp [replaced]

/-- Each layer gives way at one directive at most, and at none if it is declared later. -/
lemma replacedAll_layers (later : List Layer) (chain : List Head) (nodes : List Node) :
    ((replacedAll later chain nodes).map Prod.fst).Nodup ∧
      ∀ layer ∈ (replacedAll later chain nodes).map Prod.fst,
        layer ∈ layersOf nodes ∧ layer ∉ later := by
  cases nodes with
  | nil => simp [replacedAll]
  | cons node rest =>
      have hnode := replaced_layers (layersOf rest ++ later) chain node
      have hrest := replacedAll_layers later chain rest
      have hcons : layersOf (node :: rest) = layersOf [node] ++ layersOf rest := by
        rw [layersOf, directives_cons, List.map_append, layersOf, layersOf]
      rw [replacedAll, List.map_append, hcons]
      refine ⟨hnode.1.append hrest.1 ?_, ?_⟩
      · intro layer hin hin'
        have := (hnode.2 layer hin).2
        exact this (List.mem_append_left _ (hrest.2 layer hin').1)
      · intro layer hlayer
        rw [List.mem_append] at hlayer ⊢
        rcases hlayer with hlayer | hlayer
        · obtain ⟨hin, hout⟩ := hnode.2 layer hlayer
          exact ⟨Or.inl hin, fun h => hout (List.mem_append_right _ h)⟩
        · obtain ⟨hin, hout⟩ := hrest.2 layer hlayer
          exact ⟨Or.inr hin, hout⟩

end

mutual

/-- What is replaced is a directive of the tree. -/
lemma mem_directives_of_mem_replaced {later : List Layer} {chain : List Head} {node : Node}
    {site : Layer × Option Span × List Head} (h : site ∈ replaced later chain node) :
    (site.1, site.2.1) ∈ directives [node] := by
  cases node with
  | rule selector nodes hasBlock span =>
      have hchildren : site ∈ replacedAll later (chain ++ [⟨selector, hasBlock, span⟩]) nodes →
          (site.1, site.2.1) ∈ directives [.rule selector nodes hasBlock span] := by
        intro hin
        simp [mem_directives_of_mem_replacedAll hin]
      rw [replaced] at h
      cases hlayer : declaredLayer? selector with
      | none => exact hchildren (by simpa [hlayer] using h)
      | some layer =>
          simp only [hlayer] at h
          split_ifs at h with hlater
          · exact hchildren h
          · rw [List.mem_singleton] at h
            simp [h, hlayer]
  | declaration property value important span => simp [replaced] at h
  | comment text span => simp [replaced] at h

/-- What gives way is a directive. -/
lemma mem_directives_of_mem_replacedAll {later : List Layer} {chain : List Head}
    {nodes : List Node} {site : Layer × Option Span × List Head}
    (h : site ∈ replacedAll later chain nodes) : (site.1, site.2.1) ∈ directives nodes := by
  cases nodes with
  | nil => simp [replacedAll] at h
  | cons node rest =>
      rw [replacedAll, List.mem_append] at h
      rw [directives_cons, List.mem_append]
      exact h.imp mem_directives_of_mem_replaced mem_directives_of_mem_replacedAll

end

/-! ## Spans of generated declarations -/

mutual

/-- A declaration keeps its span, or gets the one that is filled in. -/
lemma placed_backfill (s : Span) (chain chain' : List Head) (node : Node) :
    (placed chain (node.backfill s)).map Placed.span =
      (placed chain' node).map fun p => p.span.or (some s) := by
  cases node with
  | rule selector nodes hasBlock span => exact placedAll_backfillAll s _ _ nodes
  | declaration property value important span => rfl
  | comment text span => rfl

/-- A declaration keeps its span when a span is given to a forest; one without takes it. -/
lemma placedAll_backfillAll (s : Span) (chain chain' : List Head) (nodes : List Node) :
    (placedAll chain (Node.backfillAll s nodes)).map Placed.span =
      (placedAll chain' nodes).map fun p => p.span.or (some s) := by
  cases nodes with
  | nil => rfl
  | cons node rest =>
      rw [Node.backfillAll, placedAll, placedAll, List.map_append, List.map_append,
        placed_backfill s chain chain' node, placedAll_backfillAll s chain chain' rest]

end

/-- A sheet in which some declaration has the span. -/
def Carries (sheet : Sheet) (s : Span) : Prop :=
  ∃ f ∈ sheet.fragments, ∃ p ∈ placed [] f.node, p.span = some s

/-- A span in a filled fragment was filled in or was in the fragment. -/
lemma span_of_mem_backfill? {span : Option Span} {f : Fragment} {chain : List Head} {p : Placed}
    (hp : p ∈ placed chain (f.node.backfill? span)) {s : Span} (hs : p.span = some s) :
    span = some s ∨ ∃ q ∈ placed [] f.node, q.span = some s := by
  cases span with
  | none =>
      rw [Node.backfill?, ← List.append_nil chain, placed_under, List.mem_map] at hp
      obtain ⟨q, hq, rfl⟩ := hp
      exact Or.inr ⟨q, hq, hs⟩
  | some t =>
      have hmem := List.mem_map_of_mem (f := Placed.span) hp
      rw [Node.backfill?, placed_backfill t chain [] f.node, List.mem_map] at hmem
      obtain ⟨q, hq, hspan⟩ := hmem
      rw [hs] at hspan
      cases hown : q.span with
      | none =>
          rw [hown, Option.none_or] at hspan
          exact Or.inl hspan
      | some u =>
          rw [hown, Option.some_or] at hspan
          exact Or.inr ⟨q, hq, hown.trans hspan⟩

/-- Declarations emitted for a directive have its span, or one that the sheet carries. -/
lemma span_of_mem_emit {sheet : Sheet} {span : Option Span} {fragments : List Fragment}
    (hsub : ∀ f ∈ fragments, f ∈ sheet.fragments) {chain : List Head} {p : Placed}
    (hp : p ∈ placedAll chain (emit span fragments)) {s : Span} (hs : p.span = some s) :
    span = some s ∨ Carries sheet s := by
  rw [emit, placedAll_eq_flatMap, List.mem_flatMap] at hp
  obtain ⟨node, hnode, hp⟩ := hp
  obtain ⟨f, hf, rfl⟩ := List.mem_map.1 hnode
  exact (span_of_mem_backfill? hp hs).imp_right fun hq => ⟨f, hsub f hf, hq⟩

/-! ## Directives and blocks -/

/-- A block is no directive. -/
lemma declaredLayer?_of_isSome_blockLayer? {selector : String}
    (h : (blockLayer? selector).isSome = true) : declaredLayer? selector = none := by
  unfold blockLayer? at h
  unfold declaredLayer?
  cases hsplit : Node.splitAtRule? selector.toList with
  | none => rfl
  | some head =>
      obtain ⟨name, params⟩ := head
      by_cases hname : name = "layer"
      · subst hname
        exact if_neg (by decide)
      · simp [hsplit, hname] at h

mutual

/-- Unwrapping blocks keeps all directives. -/
lemma directives_unwrap (node : Node) : directives (unwrap node) = directives [node] := by
  cases node with
  | rule selector nodes hasBlock span =>
      rw [unwrap]
      split_ifs with hblock
      · simp [directives_unwrapAll, declaredLayer?_of_isSome_blockLayer? hblock]
      · simp [directives_unwrapAll]
  | declaration property value important span => rfl
  | comment text span => rfl

/-- Taking blocks apart keeps all directives. -/
lemma directives_unwrapAll (nodes : List Node) :
    directives (unwrapAll nodes) = directives nodes := by
  cases nodes with
  | nil => rfl
  | cons node rest =>
      rw [unwrapAll, directives_append, directives_unwrap, directives_unwrapAll, ← directives_cons]

end

/-- Leaving blocks out adds no directive. -/
lemma mem_directives_of_withoutBlocks {nodes : List Node} {e : Layer × Option Span}
    (h : e ∈ directives (withoutBlocks nodes)) : e ∈ directives nodes := by
  induction nodes with
  | nil => simp [withoutBlocks] at h
  | cons node rest ih =>
      rw [directives_cons, List.mem_append]
      rw [withoutBlocks, List.filter_cons] at h
      split_ifs at h with hblock
      · rw [List.flatMap_cons, directives_append, directives_unwrap, List.mem_append] at h
        exact h.imp_right ih
      · exact Or.inr (ih h)

end UtilityCss.Directive
