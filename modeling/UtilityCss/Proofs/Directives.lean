import UtilityCss.Directive.Merge
import UtilityCss.Directive.Registry
import UtilityCss.Proofs.Ascending

/-!
# The directives of a document, without paths

`Sites.find` and `Registry` both look for `@tailwind` rules, the first to replace them and the
second to check blocks against them.  Both are compared here with one plain list, `directives`: the
layer and the span of every directive in document order.

* **Sites** — `sitesBelow_directives`: the sites are the directives with their paths, whatever the
  path they are numbered from.
* **Registry** — `registry_has_name_iff`: a layer's name is registered exactly if a directive
  declares it, so `Registry.declaresLayer` and `Sites.isEmpty` say opposite things.
* **Old spelling** — `directives_modernizeAll`: respelling `@tailwind screens` changes none of this.
* **Warnings** — what the two warnings say, whether they carry a fix or a label or not.
-/

namespace UtilityCss

namespace Directive

/-- The layer that a node declares, with the node's span. -/
def directive? : Node → Option (Layer × Option Span)
  | .rule selector _ _ span => (declaredLayer? selector).map (·, span)
  | .declaration .. => none
  | .comment .. => none

/-- The directives of a forest in document order. -/
def directives (nodes : List Node) : List (Layer × Option Span) :=
  (Node.visitsAll 0 nodes).filterMap fun visit => directive? visit.2

/-! ## The pre-order view, read off node by node -/

mutual

/-- Depths play no part in what is met, or in which order. -/
lemma visits_map_snd (d e : Nat) (node : Node) :
    (Node.visits d node).map Prod.snd = (Node.visits e node).map Prod.snd := by
  cases node with
  | rule selector nodes hasBlock span =>
      simp only [Node.visits, List.map_cons, visitsAll_map_snd (d + 1) (e + 1) nodes]
  | declaration property value important span => rfl
  | comment text span => rfl

lemma visitsAll_map_snd (d e : Nat) (nodes : List Node) :
    (Node.visitsAll d nodes).map Prod.snd = (Node.visitsAll e nodes).map Prod.snd := by
  cases nodes with
  | nil => rfl
  | cons node rest =>
      simp only [Node.visitsAll, List.map_append, visits_map_snd d e node,
        visitsAll_map_snd d e rest]

end

/-- What is read off the nodes does not depend on the depth they are counted from. -/
lemma filterMap_visitsAll {β : Type} (f : Node → Option β) (d : Nat) (nodes : List Node) :
    (Node.visitsAll d nodes).filterMap (fun visit => f visit.2)
      = (Node.visitsAll 0 nodes).filterMap (fun visit => f visit.2) := by
  have h := congrArg (List.filterMap f) (visitsAll_map_snd d 0 nodes)
  rwa [List.filterMap_map, List.filterMap_map] at h

@[simp]
lemma directives_nil : directives [] = [] := rfl

@[simp]
lemma directives_rule (selector : String) (nodes : List Node) (hasBlock : Bool)
    (span : Option Span) (rest : List Node) :
    directives (.rule selector nodes hasBlock span :: rest)
      = ((declaredLayer? selector).map (·, span)).toList ++ directives nodes
        ++ directives rest := by
  have hnodes := filterMap_visitsAll directive? 1 nodes
  simp only [directives, Node.visitsAll, Node.visits, List.filterMap_append, List.filterMap_cons,
    List.cons_append, hnodes]
  cases h : declaredLayer? selector <;> simp [directive?, h]

@[simp]
lemma directives_declaration (property value : String) (important : Bool) (span : Option Span)
    (rest : List Node) :
    directives (.declaration property value important span :: rest) = directives rest := by
  simp [directives, Node.visitsAll, Node.visits, directive?]

@[simp]
lemma directives_comment (text : String) (span : Option Span) (rest : List Node) :
    directives (.comment text span :: rest) = directives rest := by
  simp [directives, Node.visitsAll, Node.visits, directive?]

/-- The directives of a forest are those of its trees, one tree after the other. -/
lemma directives_cons (node : Node) (rest : List Node) :
    directives (node :: rest) = directives [node] ++ directives rest := by
  cases node <;> simp

/-- The directives of two forests are those of the first and then those of the second. -/
lemma directives_append (a b : List Node) : directives (a ++ b) = directives a ++ directives b := by
  induction a with
  | nil => rfl
  | cons node rest ih =>
      rw [List.cons_append, directives_cons, ih, directives_cons node rest, List.append_assoc]

/-! ## Sites -/

mutual

/-- The sites are the directives, with paths. -/
lemma sitesAt_directives (path : List Nat) (node : Node) :
    (sitesAt path node).map (fun e => (e.1, e.2.span)) = directives [node] := by
  cases node with
  | rule selector nodes hasBlock span =>
      rw [sitesAt, List.map_append, sitesBelow_directives path 0 nodes, directives_rule,
        directives_nil, List.append_nil]
      cases declaredLayer? selector <;> rfl
  | declaration property value important span => simp [sitesAt]
  | comment text span => simp [sitesAt]

/-- Sites are directives with a path. -/
lemma sitesBelow_directives (path : List Nat) (index : Nat) (nodes : List Node) :
    (sitesBelow path index nodes).map (fun e => (e.1, e.2.span)) = directives nodes := by
  cases nodes with
  | nil => rfl
  | cons node rest =>
      rw [sitesBelow, List.map_append, sitesAt_directives (path ++ [index]) node,
        sitesBelow_directives path (index + 1) rest, directives_cons node rest]

end

/-- No layer is chosen exactly if there is no directive. -/
lemma find_isEmpty_iff (nodes : List Node) :
    (Sites.find nodes).isEmpty = true ↔ directives nodes = [] := by
  rw [← sitesBelow_directives [] 0 nodes, List.map_eq_nil_iff]
  exact List.isEmpty_iff

/-! ## The registry -/

/-- The names of layers that a `@tailwind` rule can stand for. -/
lemma ofDirective?_eq_some_iff {params : String} {layer : Layer} :
    Layer.ofDirective? params = some layer
      ↔ layer ≠ .defaults ∧
        (if params == "screens" then "variants" else params) = layer.name := by
  unfold Layer.ofDirective?
  split_ifs with h₁ h₂ h₃ h₄ <;> cases layer <;> simp_all [Layer.name]

/-- An at-rule with its span. -/
def atRuleOf? (node : Node) : Option AtRule :=
  node.atRule?.map fun (name, params) => ⟨name, params, node.span⟩

/-- On a single node the registry and the list of directives agree. -/
lemma directive?_iff_declared? {layer : Layer} (hl : layer ≠ .defaults) (node : Node) :
    (∃ span, directive? node = some (layer, span))
      ↔ (atRuleOf? node).bind AtRule.declared? = some layer.name := by
  cases node with
  | rule selector nodes hasBlock span =>
      simp only [directive?, declaredLayer?, atRuleOf?, Node.atRule?]
      cases Node.splitAtRule? selector.toList with
      | none => simp
      | some head =>
          obtain ⟨name, params⟩ := head
          by_cases hname : name = "tailwind"
          · simp [hname, AtRule.declared?, ofDirective?_eq_some_iff, hl]
          · simp [hname, AtRule.declared?]
  | declaration property value important span => simp [directive?, atRuleOf?, Node.atRule?]
  | comment text span => simp [directive?, atRuleOf?, Node.atRule?]

/-- **A layer is registered exactly if a directive declares it.** -/
theorem registry_has_name_iff (layer : Layer) (hl : layer ≠ .defaults) (nodes : List Node) :
    (registryOf (atRules nodes)).has layer.name = true
      ↔ ∃ span, (layer, span) ∈ directives nodes := by
  have hrules : (atRules nodes).filterMap AtRule.declared?
      = (Node.visitsAll 0 nodes).filterMap
        fun visit => (atRuleOf? visit.2).bind AtRule.declared? := by
    rw [atRules, List.filterMap_filterMap]
    rfl
  simp only [Registry.has, registryOf, List.contains_iff_mem, Names.mem_sorted, hrules,
    directives, List.mem_filterMap, ← directive?_iff_declared? hl]
  constructor
  · rintro ⟨visit, hvisit, span, hspan⟩
    exact ⟨span, visit, hvisit, hspan⟩
  · rintro ⟨span, visit, hvisit, hspan⟩
    exact ⟨visit, hvisit, span, hspan⟩

end Directive

/-- Whether at least one of the layers that can be expanded is declared. -/
def Registry.declaresLayer (r : Registry) : Bool :=
  r.has "base" || r.has "components" || r.has "utilities" || r.has "variants"

namespace Directive

/-- The layer of the default declarations cannot be declared. -/
lemma not_defaults_mem_directives (nodes : List Node) (span : Option Span) :
    (Layer.defaults, span) ∉ directives nodes := by
  intro h
  obtain ⟨visit, -, hvisit⟩ := List.mem_filterMap.mp h
  cases hnode : visit.2 with
  | rule selector nodes hasBlock span' =>
      rw [hnode] at hvisit
      simp only [directive?, Option.map_eq_some_iff, Prod.mk.injEq] at hvisit
      obtain ⟨layer, hlayer, rfl, -⟩ := hvisit
      unfold declaredLayer? at hlayer
      split at hlayer
      · split_ifs at hlayer
        exact (ofDirective?_eq_some_iff.mp hlayer).1 rfl
      · cases hlayer
  | declaration property value important span' => rw [hnode] at hvisit; cases hvisit
  | comment text span' => rw [hnode] at hvisit; cases hvisit

/-- The registry knows of a layer exactly if there is a directive. -/
theorem declaresLayer_iff (nodes : List Node) :
    (registryOf (atRules nodes)).declaresLayer = true ↔ directives nodes ≠ [] := by
  have hbase := registry_has_name_iff .base (by simp) nodes
  have hcomponents := registry_has_name_iff .components (by simp) nodes
  have hutilities := registry_has_name_iff .utilities (by simp) nodes
  have hvariants := registry_has_name_iff .variants (by simp) nodes
  simp only [Layer.name] at hbase hcomponents hutilities hvariants
  simp only [Registry.declaresLayer, Bool.or_eq_true, hbase, hcomponents, hutilities, hvariants]
  constructor
  · rintro (((⟨span, h⟩ | ⟨span, h⟩) | ⟨span, h⟩) | ⟨span, h⟩) <;> exact List.ne_nil_of_mem h
  · intro h
    obtain ⟨⟨layer, span⟩, hmem⟩ := List.exists_mem_of_ne_nil _ h
    cases layer with
    | defaults => exact absurd hmem (not_defaults_mem_directives nodes span)
    | base => exact Or.inl (Or.inl (Or.inl ⟨span, hmem⟩))
    | components => exact Or.inl (Or.inl (Or.inr ⟨span, hmem⟩))
    | utilities => exact Or.inl (Or.inr ⟨span, hmem⟩)
    | variants => exact Or.inr ⟨span, hmem⟩

/-- The names that can follow `@tailwind`, the old one for `variants` included. -/
def layerNames : List String :=
  ["base", "components", "utilities", "variants", "screens"]

/-- A document declares no layer if no `@tailwind` rule names one. -/
lemma directives_eq_nil {nodes : List Node}
    (h : ∀ visit ∈ Node.visitsAll 0 nodes, ∀ params ∈ layerNames,
      visit.2.atRule? ≠ some ("tailwind", params)) : directives nodes = [] := by
  rw [directives, List.filterMap_eq_nil_iff]
  intro visit hvisit
  have hrule := h visit hvisit
  cases hnode : visit.2 with
  | declaration property value important span => rfl
  | comment text span => rfl
  | rule selector children hasBlock span =>
      simp only [hnode, Node.atRule?] at hrule
      rw [directive?, Option.map_eq_none_iff, declaredLayer?]
      cases hsplit : Node.splitAtRule? selector.toList with
      | none => rfl
      | some head =>
          obtain ⟨name, params⟩ := head
          by_cases hname : name = "tailwind"
          · have hparams : params ∉ layerNames := by
              intro hmem
              exact hrule params hmem (by rw [hsplit, hname])
            simp only [layerNames, List.mem_cons, List.not_mem_nil, or_false, not_or] at hparams
            simp [hname, Layer.ofDirective?, hparams]
          · simp [hname]

/-! ## The old spelling -/

/-- `@tailwind screens` and `@tailwind variants` declare the same layer. -/
lemma declaredLayer?_screens {selector : String} (h : isScreens selector = true) :
    declaredLayer? selector = declaredLayer? "@tailwind variants" := by
  simp only [isScreens, beq_iff_eq] at h
  have hnew : declaredLayer? "@tailwind variants" = some .variants := by decide +kernel
  rw [hnew, declaredLayer?, h]
  decide

mutual

/-- In modern spelling a document has the same directives. -/
lemma directives_modernize (node : Node) : directives [modernize node] = directives [node] := by
  cases node with
  | rule selector nodes hasBlock span =>
      simp only [modernize, directives_rule, directives_modernizeAll nodes]
      split_ifs with h
      · rw [declaredLayer?_screens h]
      · rfl
  | declaration property value important span => rfl
  | comment text span => rfl

/-- Respelling directives neither adds nor removes one. -/
lemma directives_modernizeAll (nodes : List Node) :
    directives (modernizeAll nodes) = directives nodes := by
  cases nodes with
  | nil => rfl
  | cons node rest =>
      rw [modernizeAll, directives_cons, directives_modernize node, directives_modernizeAll rest,
        ← directives_cons]

end

/-- An accepted document has no error, and goes on in modern spelling. -/
lemma of_normalize_eq_ok {nodes document : List Node} {sink : Sink} {registry : Registry}
    (h : (normalize nodes sink).1 = .ok (registry, document)) :
    firstError? (registryOf (atRules nodes)) (atRules nodes) = none ∧
      registry = registryOf (atRules nodes) ∧ document = modernizeAll nodes := by
  simp only [normalize, review] at h
  cases he : firstError? (registryOf (atRules nodes)) (atRules nodes) with
  | some e =>
      rw [he] at h
      cases h
  | none =>
      rw [he] at h
      obtain ⟨rfl, rfl⟩ := Prod.mk.inj (Except.ok.inj h)
      exact ⟨rfl, rfl, rfl⟩

/-! ## The warnings -/

@[simp]
lemma deprecation_severity (rule : AtRule) : (deprecation rule).severity = .warning := by
  rw [deprecation]
  split_ifs <;> rfl

@[simp]
lemma deprecation_code (rule : AtRule) : (deprecation rule).code = .deprecatedAtRule := by
  rw [deprecation]
  split_ifs <;> rfl

@[simp]
lemma deprecation_message (rule : AtRule) :
    (deprecation rule).message = "The `@" ++ rule.name ++ "` directive has been deprecated." := by
  rw [deprecation]
  split_ifs <;> rfl

@[simp]
lemma deprecation_span (rule : AtRule) : (deprecation rule).span = rule.place := by
  rw [deprecation]
  split_ifs <;> rfl

@[simp]
lemma noUtilities_severity (span : Span) : (noUtilities span).severity = .warning := by
  rw [noUtilities]
  split_ifs <;> rfl

@[simp]
lemma noUtilities_code (span : Span) : (noUtilities span).code = .noUtilities := by
  rw [noUtilities]
  split_ifs <;> rfl

@[simp]
lemma noUtilities_span (span : Span) : (noUtilities span).span = span := by
  rw [noUtilities]
  split_ifs <;> rfl

end Directive

end UtilityCss
