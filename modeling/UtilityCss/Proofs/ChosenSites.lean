import UtilityCss.Proofs.MergeShape
import UtilityCss.Proofs.Verdicts

/-!
# Chosen directives

The check of a document collects the names that its `@tailwind` rules declare; the merge looks for these
rules again and keeps their paths.  Both see the same rules, in either spelling.

* **Sites and paths** — `sitesBelow_eq_filterMap`: the sites are the nodes that declare a layer, at the
  paths that lead to them.
* **Last one wins** — `of_get?_find`: the chosen site is the one with the greatest path.
* **Respelling** — `find_modernizeAll`: a respelled document has its directives where they were, and
  `directive?_modernize_iff` says that their names are now those of the layers.
-/

namespace UtilityCss.Directive

/-! ## Sites and paths -/

/-- What the node at a path contributes to the sites of a document. -/
def siteOf? (spot : List Nat × Node) : Option (Layer × Site) :=
  (directive? spot.2).map fun d => (d.1, ⟨spot.1, d.2⟩)

/-- A site is a directive with the path it stands at. -/
lemma siteOf?_eq_some_iff {spot : List Nat × Node} {layer : Layer} {site : Site} :
    siteOf? spot = some (layer, site) ↔
      directive? spot.2 = some (layer, site.span) ∧ spot.1 = site.path := by
  rw [siteOf?, Option.map_eq_some_iff]
  constructor
  · rintro ⟨d, hd, heq⟩
    obtain ⟨rfl, rfl⟩ := Prod.mk.inj heq
    exact ⟨hd, rfl⟩
  · rintro ⟨hd, hpath⟩
    exact ⟨_, hd, by rw [hpath]⟩

mutual

lemma sitesAt_eq_filterMap (path : List Nat) (node : Node) :
    sitesAt path node = (spotsAt path node).filterMap siteOf? := by
  cases node with
  | rule selector nodes hasBlock span =>
      rw [sitesAt, spotsAt, List.filterMap_cons, sitesBelow_eq_filterMap path 0 nodes, siteOf?,
        directive?]
      cases declaredLayer? selector <;> rfl
  | declaration property value important span => rfl
  | comment text span => rfl

/-- Sites are the nodes that declare a layer, with their paths. -/
lemma sitesBelow_eq_filterMap (path : List Nat) (index : Nat) (nodes : List Node) :
    sitesBelow path index nodes = (spotsBelow path index nodes).filterMap siteOf? := by
  cases nodes with
  | nil => rfl
  | cons node rest =>
      rw [sitesBelow, spotsBelow, List.filterMap_append, sitesAt_eq_filterMap (path ++ [index]) node,
        sitesBelow_eq_filterMap path (index + 1) rest]

end

/-- The directives of a document are those among its spots, in the same order. -/
lemma found_find (nodes : List Node) : (Sites.find nodes).found = (spots nodes).filterMap siteOf? :=
  sitesBelow_eq_filterMap [] 0 nodes

/-- The chosen directive is the last in document order. -/
lemma of_get?_find {nodes : List Node} {layer : Layer} {site : Site}
    (h : (Sites.find nodes).get? layer = some site) :
    (∃ node, Node.follow? nodes site.path = some node ∧ directive? node = some (layer, site.span)) ∧
      ∀ path, site.path < path → ∀ node, Node.follow? nodes path = some node →
        ∀ span, directive? node ≠ some (layer, span) := by
  -- the site, with the sites behind it, and the spots that these come from
  obtain ⟨later, earlier, hfound, hlater⟩ := List.lookup_eq_some_iff.1 h
  rw [found_find, List.reverse_eq_iff, List.reverse_append, List.reverse_cons, List.append_assoc,
    List.singleton_append, List.filterMap_eq_append_iff] at hfound
  obtain ⟨front, rest, hspots, -, hrest⟩ := hfound
  obtain ⟨skipped, spot, back, rfl, -, hspot, hback⟩ := List.filterMap_eq_cons_iff.1 hrest
  rw [← List.append_assoc] at hspots
  obtain ⟨hdirective, hpath⟩ := siteOf?_eq_some_iff.1 hspot
  constructor
  · have hmem : spot ∈ spots nodes := by simp [hspots]
    exact ⟨spot.2, hpath ▸ mem_spots.1 hmem, hdirective⟩
  · intro path hgt node hfollow span hnode
    have hmem := mem_spots.2 hfollow
    rw [hspots] at hmem
    have hbehind : (path, node) ∈ back :=
      mem_back_of_gt (hspots ▸ pairwise_spots nodes) hmem (hpath ▸ hgt)
    have hsite : (layer, Site.mk path span) ∈ back.filterMap siteOf? :=
      List.mem_filterMap.2 ⟨_, hbehind, siteOf?_eq_some_iff.2 ⟨hnode, rfl⟩⟩
    rw [hback, List.mem_reverse] at hsite
    simpa using hlater _ hsite

/-! ## Respelling -/

/-- A `@tailwind` rule declares the same layer in either spelling. -/
lemma directive?_modernize (node : Node) : directive? (modernize node) = directive? node := by
  cases node with
  | rule selector nodes hasBlock span =>
      simp only [modernize, directive?]
      split_ifs with hscreens
      · rw [declaredLayer?_screens hscreens]
      · rfl
  | declaration property value important span => rfl
  | comment text span => rfl

/-- A respelled document has its directives where they were. -/
lemma find_modernizeAll (nodes : List Node) : Sites.find (modernizeAll nodes) = Sites.find nodes := by
  have hsite : (siteOf? ∘ fun spot => (spot.1, modernize spot.2)) = siteOf? := by
    funext spot
    simp only [siteOf?, Function.comp_apply, directive?_modernize]
  rw [Sites.find, Sites.find, sitesBelow_eq_filterMap, sitesBelow_eq_filterMap,
    spotsBelow_modernizeAll, List.filterMap_map, hsite]

/-- A respelled directive names its layer. -/
lemma directive?_modernize_iff {layer : Layer} (hlayer : layer ≠ .defaults) (node : Node)
    (span : Option Span) :
    directive? (modernize node) = some (layer, span) ↔
      (modernize node).atRule? = some ("tailwind", layer.name) ∧ (modernize node).span = span := by
  cases node with
  | rule selector nodes hasBlock span' =>
      have hmodern := isScreens_modern selector
      simp only [modernize, directive?, declaredLayer?, Node.atRule?, Node.span]
      generalize (if isScreens selector then "@tailwind variants" else selector) = selector' at hmodern ⊢
      rw [isScreens, beq_eq_false_iff_ne] at hmodern
      cases hsplit : Node.splitAtRule? selector'.toList with
      | none => simp
      | some head =>
          obtain ⟨name, params⟩ := head
          by_cases hname : name = "tailwind"
          · have hparams : params ≠ "screens" := by
              rintro rfl
              exact hmodern (by rw [hsplit, hname])
            simp [hname, ofDirective?_eq_some_iff, hlayer, hparams]
          · simp [hname]
  | declaration property value important span => simp [modernize, directive?, Node.atRule?]
  | comment text span => simp [modernize, directive?, Node.atRule?]

/-! ## Check and merge -/

/-- **Check and merge see the same directives.**  In an accepted document the merge chooses the same site
for every layer, whether it looks at the document as it was or in modern spelling, and it chooses one
exactly if the registry has the name of the layer.  The chosen path leads to a rule that declares the
layer, and no rule behind it does. -/
theorem get?_find_of_normalize {nodes document : List Node} {sink : Sink} {registry : Registry}
    (h : (normalize nodes sink).1 = .ok (registry, document)) :
    (∀ layer, (Sites.find document).get? layer = (Sites.find nodes).get? layer) ∧
    (∀ layer ∈ [Layer.base, .components, .utilities, .variants],
      (∃ site, (Sites.find document).get? layer = some site) ↔ registry.has layer.name = true) ∧
    ∀ layer site, (Sites.find document).get? layer = some site →
      (∃ node, Node.follow? document site.path = some node ∧
        node.atRule? = some ("tailwind", layer.name) ∧ node.span = site.span) ∧
      ∀ path, site.path < path → ∀ node, Node.follow? document path = some node →
        node.atRule? ≠ some ("tailwind", layer.name) := by
  obtain ⟨-, rfl, rfl⟩ := of_normalize_eq_ok h
  refine ⟨fun layer => by rw [find_modernizeAll], fun layer hmem => ?_, fun layer site hget => ?_⟩
  · have hlayer : layer ≠ .defaults := by
      rintro rfl
      simp at hmem
    have hhas : (Sites.find nodes).has layer = true ↔ layer ∈ layersOf nodes := by
      rw [has_find, decide_eq_true_iff]
    rw [find_modernizeAll, registry_has_name_iff layer hlayer, ← Option.isSome_iff_exists]
    exact hhas.trans (by simp [layersOf])
  · obtain ⟨⟨node, hfollow, hnode⟩, hlast⟩ := of_get?_find hget
    have hlayer : layer ≠ .defaults := by
      rintro rfl
      exact not_defaults_mem_directives (modernizeAll nodes) site.span
        (sitesBelow_directives [] 0 (modernizeAll nodes) ▸ List.mem_map_of_mem (mem_of_get? hget))
    rw [follow?_modernizeAll, Option.map_eq_some_iff] at hfollow
    obtain ⟨old, hold, rfl⟩ := hfollow
    refine ⟨⟨modernize old, ?_, (directive?_modernize_iff hlayer old _).1 hnode⟩, ?_⟩
    · rw [follow?_modernizeAll, hold]
      rfl
    · intro path hgt node hfollow hrule
      have hnot := hlast path hgt node hfollow
      rw [follow?_modernizeAll, Option.map_eq_some_iff] at hfollow
      obtain ⟨old, -, rfl⟩ := hfollow
      exact hnot _ ((directive?_modernize_iff hlayer old _).2 ⟨hrule, rfl⟩)

/-- The old spelling inside a rule, behind a directive for the same layer and in front of a block. -/
theorem get?_find_of_normalize_nested :
    let nodes := [Node.rule "@tailwind variants" [] false (some ⟨0, 0, 19⟩),
      .block "@media print" [.rule "@tailwind screens" [] false (some ⟨0, 33, 51⟩)],
      .rule "@tailwind base" [] false (some ⟨0, 52, 67⟩), .block "@layer base" [.block ".a" []]]
    let document := modernizeAll nodes
    (normalize nodes .empty).1 = .ok (⟨["base", "variants"], []⟩, document) ∧
    (Sites.find nodes).get? .variants = some ⟨[1, 0], some ⟨0, 33, 51⟩⟩ ∧
    (Sites.find document).get? .variants = (Sites.find nodes).get? .variants ∧
    ∃ node, Node.follow? document [1, 0] = some node ∧
      node.atRule? = some ("tailwind", "variants") ∧ node.span = some ⟨0, 33, 51⟩ := by
  intro nodes document
  have hnone : firstError? (registryOf (atRules nodes)) (atRules nodes) = none := by decide +kernel
  have hregistry : registryOf (atRules nodes) = ⟨["base", "variants"], []⟩ := by decide +kernel
  have hok : (normalize nodes .empty).1 = .ok (⟨["base", "variants"], []⟩, document) := by
    simp only [normalize, review, hregistry]
    rfl
  have hget : (Sites.find nodes).get? .variants = some ⟨[1, 0], some ⟨0, 33, 51⟩⟩ := by decide +kernel
  obtain ⟨hsame, -, hchosen⟩ := get?_find_of_normalize hok
  exact ⟨hok, hget, hsame .variants, (hchosen .variants _ ((hsame _).trans hget)).1⟩

end UtilityCss.Directive
