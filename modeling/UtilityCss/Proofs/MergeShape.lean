import UtilityCss.Proofs.Directives

/-!
# What a merged document looks like

`merge` finds directives by path, plans replacements by path and carries the plan out by path.
`fillAll` says the same without paths, by recursion on the tree: a rule that declares a layer gives
way to the layer's contents if no directive behind it in document order declares the same layer,
and otherwise stays, with its children filled.  `merge_eq_fillAll` is the comparison.

**Paths.**  The sites below a path all lie under it (`sitesBelow_under`), so the site of a node is
told from all others by its path alone.

**The plan.**  Hence looking up the path of a directive in the plan finds the layer's contents
exactly if no later site has the layer (`plan_lookup_site`), and every other path is not in the plan
(`plan_lookup_eq_none`).

**The pass.**  `spliceBelow_eq_fillAll` walks both recursions in step; what it carries along are the
sites in front of and behind the trees at hand.
-/

namespace UtilityCss.Directive

/-- The layers that a forest declares, in document order. -/
def layersOf (nodes : List Node) : List Layer :=
  (directives nodes).map Prod.fst

/-- The span of the last directive of a forest for a layer. -/
def lastSpan? (nodes : List Node) (layer : Layer) : Option Span :=
  ((directives nodes).reverse.lookup layer).join

mutual

/-- A tree in front of directives for the layers `later`: a directive for a layer that is not
declared again gives way to `new`. -/
def fill (new : Layer → Option Span → List Node) (later : List Layer) : Node → List Node
  | .rule selector nodes hasBlock span =>
    let kept := [Node.rule selector (fillAll new later nodes) hasBlock span]
    match declaredLayer? selector with
    | some layer => if layer ∈ layersOf nodes ++ later then kept else new layer span
    | none => kept
  | .declaration property value important span => [.declaration property value important span]
  | .comment text span => [.comment text span]

/-- The same for a forest; for each tree, the layers of the trees behind it come later. -/
def fillAll (new : Layer → Option Span → List Node) (later : List Layer) : List Node → List Node
  | [] => []
  | node :: rest => fill new (layersOf rest ++ later) node ++ fillAll new later rest

end

/-- Rules made by variants belong into a document unless they were made from components or utilities
and the document does not declare these. -/
def belonging (sheet : Sheet) (declared : List Layer) : List Fragment :=
  (sheet.bucket .variants).filter fun f =>
    decide ((f.origin = some .components → .components ∈ declared) ∧
      (f.origin = some .utilities → .utilities ∈ declared))

/-- What takes the place of the directive for a layer: the generated rules of the layer, then what
the document adds to it. -/
def contents (nodes : List Node) (sheet : Sheet) (layer : Layer) (span : Option Span) :
    List Node :=
  match layer with
  | .defaults => []
  | .base =>
    emit span (sheet.bucket .defaults) ++ emit span (sheet.bucket .base) ++ authored nodes .base
  | .components => emit span (sheet.bucket .components) ++ authored nodes .components
  | .utilities => emit span (sheet.bucket .utilities) ++ authored nodes .utilities
  | .variants => emit span (belonging sheet (layersOf (withoutBlocks nodes)))

/-- What follows a document that does not declare variants. -/
def leftover (sheet : Sheet) (document : List Node) : List Node :=
  if .variants ∈ layersOf document then []
  else (belonging sheet (layersOf document)).map fun f =>
    f.node.backfill? (f.origin.bind (lastSpan? document))

/-! ## Paths -/

section paths

mutual

/-- The directives of a tree stand below the path of the tree. -/
lemma sitesAt_under (path : List Nat) (node : Node) :
    ∀ e ∈ sitesAt path node, path <+: e.2.path := by
  cases node with
  | rule selector nodes hasBlock span =>
      intro e he
      rw [sitesAt, List.mem_append] at he
      rcases he with he | he
      · simp only [Option.mem_toList, Option.map_eq_some_iff] at he
        obtain ⟨layer, -, rfl⟩ := he
        exact List.prefix_rfl
      · obtain ⟨j, -, hj⟩ := sitesBelow_under path 0 nodes e he
        exact (List.prefix_append path [j]).trans hj
  | declaration property value important span => simp [sitesAt]
  | comment text span => simp [sitesAt]

/-- The sites of a forest lie under the paths of its trees. -/
lemma sitesBelow_under (path : List Nat) (index : Nat) (nodes : List Node) :
    ∀ e ∈ sitesBelow path index nodes, ∃ j, index ≤ j ∧ path ++ [j] <+: e.2.path := by
  cases nodes with
  | nil => simp [sitesBelow]
  | cons node rest =>
      intro e he
      rw [sitesBelow, List.mem_append] at he
      rcases he with he | he
      · exact ⟨index, le_rfl, sitesAt_under (path ++ [index]) node e he⟩
      · obtain ⟨j, hj, hpath⟩ := sitesBelow_under path (index + 1) rest e he
        exact ⟨j, by omega, hpath⟩

end

/-- None of the sites lies at or under the path. -/
def Aside (path : List Nat) (sites : List (Layer × Site)) : Prop :=
  ∀ e ∈ sites, ¬ path <+: e.2.path

/-- None of the sites lies at or under a child of the path with this index or a later one. -/
def AsideFrom (path : List Nat) (index : Nat) (sites : List (Layer × Site)) : Prop :=
  ∀ j, index ≤ j → Aside (path ++ [j]) sites

lemma Aside.append {path : List Nat} {a b : List (Layer × Site)} (ha : Aside path a)
    (hb : Aside path b) : Aside path (a ++ b) := by
  intro e he
  exact (List.mem_append.1 he).elim (ha e) (hb e)

lemma AsideFrom.append {path : List Nat} {index : Nat} {a b : List (Layer × Site)}
    (ha : AsideFrom path index a) (hb : AsideFrom path index b) :
    AsideFrom path index (a ++ b) :=
  fun j hj => (ha j hj).append (hb j hj)

/-- What is aside of a path is aside of the paths below it. -/
lemma Aside.below {path : List Nat} {sites : List (Layer × Site)} (h : Aside path sites)
    (index : Nat) : AsideFrom path index sites :=
  fun j _ e he hpre => h e he ((List.prefix_append path [j]).trans hpre)

lemma AsideFrom.mono {path : List Nat} {i j : Nat} (hij : i ≤ j) {sites : List (Layer × Site)}
    (h : AsideFrom path i sites) : AsideFrom path j sites :=
  fun k hk => h k (hij.trans hk)

/-- Two children of a path are not under each other. -/
lemma eq_of_under {path q : List Nat} {i j : Nat} (hi : path ++ [i] <+: q)
    (hj : path ++ [j] <+: q) : i = j := by
  have hlen : (path ++ [i]).length = (path ++ [j]).length := by simp
  have := (List.prefix_of_prefix_length_le hi hj hlen.le).eq_of_length hlen
  simpa using this

/-- Directives of later siblings are aside of an earlier one. -/
lemma aside_sitesBelow (path : List Nat) {i j : Nat} (hij : i < j) (nodes : List Node) :
    Aside (path ++ [i]) (sitesBelow path j nodes) := by
  intro e he hpre
  obtain ⟨k, hk, hpath⟩ := sitesBelow_under path j nodes e he
  have := eq_of_under hpre hpath
  omega

/-- The directives of a sibling are aside of those behind it. -/
lemma asideFrom_sitesAt (path : List Nat) (index : Nat) (node : Node) :
    AsideFrom path (index + 1) (sitesAt (path ++ [index]) node) := by
  intro j hj e he hpre
  have := eq_of_under (sitesAt_under (path ++ [index]) node e he) hpre
  omega

/-- A node's own site lies above its children. -/
lemma asideFrom_self (path : List Nat) (index : Nat) (layer : Layer) (span : Option Span) :
    AsideFrom path index [(layer, ⟨path, span⟩)] := by
  intro j _ e he hpre
  rw [List.mem_singleton] at he
  subst he
  have := hpre.length_le
  simp at this

/-- A directive among children does not stand where their parent does. -/
lemma sitesBelow_path_ne (path : List Nat) (index : Nat) (nodes : List Node) :
    ∀ e ∈ sitesBelow path index nodes, e.2.path ≠ path := by
  rintro e he rfl
  obtain ⟨j, -, hpath⟩ := sitesBelow_under _ index nodes e he
  have := hpath.length_le
  simp at this

lemma Aside.path_ne {path : List Nat} {sites : List (Layer × Site)} (h : Aside path sites) :
    ∀ e ∈ sites, e.2.path ≠ path := by
  rintro e he rfl
  exact h e he List.prefix_rfl

end paths

/-! ## The plan -/

/-- An entry found at a key is looked up there if no other entry has the key. -/
lemma lookup_eq_some_of_mem {α β : Type} [BEq α] [LawfulBEq α] {l : List (α × β)} {k : α} {v : β}
    (hmem : (k, v) ∈ l) (hunique : ∀ e ∈ l, e.1 = k → e.2 = v) : l.lookup k = some v := by
  cases hlookup : l.lookup k with
  | none =>
      have := List.lookup_eq_none_iff.1 hlookup (k, v) hmem
      simp at this
  | some w =>
      obtain ⟨front, back, rfl, -⟩ := List.lookup_eq_some_iff.1 hlookup
      exact congrArg some (hunique (k, w) (by simp) rfl)

lemma mem_of_lookup {α β : Type} [BEq α] [LawfulBEq α] {l : List (α × β)} {k : α} {v : β}
    (h : l.lookup k = some v) : (k, v) ∈ l := by
  obtain ⟨front, back, rfl, -⟩ := List.lookup_eq_some_iff.1 h
  simp

/-- Values can be changed before or after they are looked up. -/
lemma lookup_map_snd {α β γ : Type} [BEq α] (f : β → γ) (l : List (α × β)) (k : α) :
    (l.map fun e => (e.1, f e.2)).lookup k = (l.lookup k).map f := by
  induction l with
  | nil => rfl
  | cons e l ih =>
      rw [List.map_cons, List.lookup_cons, List.lookup_cons, ih]
      cases k == e.1 <;> rfl

/-- The directive chosen for a layer is one of those found. -/
lemma mem_of_get? {sites : Sites} {layer : Layer} {site : Site}
    (h : sites.get? layer = some site) : (layer, site) ∈ sites.found :=
  List.mem_reverse.1 (mem_of_lookup h)

/-- The site behind which a layer is not declared any more is the chosen one. -/
lemma get?_append_cons (pre : List (Layer × Site)) {post : List (Layer × Site)} {layer : Layer}
    (site : Site) (h : layer ∉ post.map Prod.fst) :
    (Sites.mk (pre ++ (layer, site) :: post)).get? layer = some site := by
  have hnone : post.reverse.lookup layer = none := by
    rw [List.lookup_eq_none_iff]
    rintro e he
    rw [bne_iff_ne]
    rintro rfl
    exact h (List.mem_map_of_mem (List.mem_reverse.1 he))
  simp [Sites.get?, List.lookup_append, hnone]

/-- A directive with a later one of its layer is not chosen. -/
lemma get?_eq_of_mem_later {pre post : List (Layer × Site)} {layer : Layer} (site : Site)
    (h : layer ∈ post.map Prod.fst) {site' : Site}
    (hget : (Sites.mk (pre ++ (layer, site) :: post)).get? layer = some site') :
    (layer, site') ∈ post := by
  obtain ⟨e, he, rfl⟩ := List.mem_map.1 h
  have hsome : (post.reverse.lookup e.1).isSome = true :=
    List.lookup_isSome_iff.2 ⟨e, by simpa using he, by simp⟩
  obtain ⟨last, hlast⟩ := Option.isSome_iff_exists.1 hsome
  have : last = site' := by
    simpa [Sites.get?, List.lookup_append, hlast] using hget
  exact List.mem_reverse.1 (mem_of_lookup (this ▸ hlast))

/-- The plan that puts `new` in place of the chosen directives. -/
def planOf (new : Layer → Option Span → List Node) (sites : Sites) : Plan :=
  [Layer.base, .components, .utilities, .variants].flatMap fun layer =>
    ((sites.get? layer).map fun site => (site.path, new layer site.span)).toList

/-- All layers that a document can declare are planned for. -/
lemma mem_planned {layer : Layer} (h : layer ≠ .defaults) :
    layer ∈ [Layer.base, .components, .utilities, .variants] := by
  cases layer with
  | defaults => exact absurd rfl h
  | _ => simp

/-- Every replacement is for the directive of some layer. -/
lemma mem_planOf {new : Layer → Option Span → List Node} {sites : Sites}
    {e : List Nat × List Node} (he : e ∈ planOf new sites) :
    ∃ layer site, sites.get? layer = some site ∧ e = (site.path, new layer site.span) := by
  simp only [planOf, List.mem_flatMap, Option.mem_toList, Option.map_eq_some_iff] at he
  obtain ⟨layer, -, site, hget, rfl⟩ := he
  exact ⟨layer, site, hget, rfl⟩

/-- A path at which no directive stands is not in the plan. -/
lemma plan_lookup_eq_none (new : Layer → Option Span → List Node) {sites : Sites} {q : List Nat}
    (h : ∀ e ∈ sites.found, e.2.path ≠ q) : (planOf new sites).lookup q = none := by
  rw [List.lookup_eq_none_iff]
  intro e he
  obtain ⟨layer, site, hget, rfl⟩ := mem_planOf he
  rw [bne_iff_ne]
  exact Ne.symm (h _ (mem_of_get? hget))

/-- The path of a directive is in the plan exactly if the directive is the last for its layer. -/
lemma plan_lookup_site (new : Layer → Option Span → List Node) {pre post : List (Layer × Site)}
    {layer : Layer} (hlayer : layer ≠ .defaults) {q : List Nat} (span : Option Span)
    (haside : ∀ e ∈ pre ++ post, e.2.path ≠ q) :
    (planOf new ⟨pre ++ (layer, ⟨q, span⟩) :: post⟩).lookup q =
      if layer ∈ post.map Prod.fst then none else some (new layer span) := by
  have hsite : ∀ {layer' : Layer} {site : Site},
      (Sites.mk (pre ++ (layer, ⟨q, span⟩) :: post)).get? layer' = some site → site.path = q →
      layer' = layer ∧ site = ⟨q, span⟩ := by
    intro layer' site hget hpath
    have hmem := mem_of_get? hget
    simp only [List.mem_append, List.mem_cons, Prod.mk.injEq] at hmem
    rcases hmem with hmem | hmem | hmem
    · exact absurd hpath (haside (layer', site) (by simp [hmem]))
    · exact hmem
    · exact absurd hpath (haside (layer', site) (by simp [hmem]))
  split_ifs with hlater
  · rw [List.lookup_eq_none_iff]
    intro e he
    obtain ⟨layer', site, hget, rfl⟩ := mem_planOf he
    rw [bne_iff_ne]
    rintro hq
    obtain ⟨rfl, rfl⟩ := hsite hget hq.symm
    exact haside _ (List.mem_append_right _ (get?_eq_of_mem_later _ hlater hget)) rfl
  · have hget := get?_append_cons pre ⟨q, span⟩ hlater
    refine lookup_eq_some_of_mem ?_ ?_
    · simp only [planOf, List.mem_flatMap, Option.mem_toList, Option.map_eq_some_iff]
      exact ⟨layer, mem_planned hlayer, ⟨q, span⟩, hget, rfl⟩
    · intro e he hq
      obtain ⟨layer', site, hget', rfl⟩ := mem_planOf he
      obtain ⟨rfl, rfl⟩ := hsite hget' hq
      rfl

/-! ## The pass -/

/-- Directives are found in the order of the document. -/
lemma sitesBelow_map_fst (path : List Nat) (index : Nat) (nodes : List Node) :
    (sitesBelow path index nodes).map Prod.fst = layersOf nodes := by
  rw [layersOf, ← sitesBelow_directives path index nodes, List.map_map]
  rfl

/-- Nothing declares the layer of the default declarations. -/
lemma declaredLayer?_ne_defaults {selector : String} {layer : Layer}
    (h : declaredLayer? selector = some layer) : layer ≠ .defaults := by
  unfold declaredLayer? at h
  split at h
  · split_ifs at h
    exact (ofDirective?_eq_some_iff.1 h).1
  · cases h

section pass
variable (new : Layer → Option Span → List Node) {found : List (Layer × Site)}

mutual

/-- `pre` and `post` are the sites in front of and behind the tree; none of them lies in it. -/
lemma splice_eq_fill (path : List Nat) (node : Node) (pre post : List (Layer × Site))
    (hfound : found = pre ++ (sitesAt path node ++ post)) (hpre : Aside path pre)
    (hpost : Aside path post) :
    splice (planOf new ⟨found⟩) path node = fill new (post.map Prod.fst) node := by
  have haside : ∀ e ∈ pre ++ post, e.2.path ≠ path := (hpre.append hpost).path_ne
  cases node with
  | rule selector nodes hasBlock span =>
      have hbelow : ∀ e ∈ pre ++ (sitesBelow path 0 nodes ++ post), e.2.path ≠ path := by
        intro e he
        simp only [List.mem_append] at he haside
        rcases he with he | he | he
        · exact haside e (Or.inl he)
        · exact sitesBelow_path_ne path 0 nodes e he
        · exact haside e (Or.inr he)
      cases hlayer : declaredLayer? selector with
      | none =>
          have hsites : found = pre ++ (sitesBelow path 0 nodes ++ post) := by
            simpa [sitesAt, hlayer] using hfound
          have hnone := plan_lookup_eq_none new (q := path) (hsites ▸ hbelow)
          have hchildren := spliceBelow_eq_fillAll path 0 nodes pre post hsites (hpre.below 0)
            (hpost.below 0)
          rw [splice, fill, hnone, hlayer, hchildren]
      | some layer =>
          have hsites : found =
              pre ++ (layer, ⟨path, span⟩) :: (sitesBelow path 0 nodes ++ post) := by
            simpa [sitesAt, hlayer] using hfound
          have hlookup := plan_lookup_site new (declaredLayer?_ne_defaults hlayer) span hbelow
          rw [← hsites, List.map_append, sitesBelow_map_fst] at hlookup
          have hpre' : AsideFrom path 0 (pre ++ [(layer, ⟨path, span⟩)]) :=
            (hpre.below 0).append (asideFrom_self path 0 layer span)
          have hchildren := spliceBelow_eq_fillAll path 0 nodes (pre ++ [(layer, ⟨path, span⟩)])
            post (by simpa using hsites) hpre' (hpost.below 0)
          rw [splice, fill, hlookup, hlayer, hchildren]
          dsimp only
          split_ifs <;> rfl
  | declaration property value important span =>
      have hsites : found = pre ++ post := by simpa [sitesAt] using hfound
      rw [splice, plan_lookup_eq_none new (hsites ▸ haside)]
      rfl
  | comment text span =>
      have hsites : found = pre ++ post := by simpa [sitesAt] using hfound
      rw [splice, plan_lookup_eq_none new (hsites ▸ haside)]
      rfl

/-- For a forest: what precedes it and what follows it among all directives is left aside. -/
lemma spliceBelow_eq_fillAll (path : List Nat) (index : Nat) (nodes : List Node)
    (pre post : List (Layer × Site)) (hfound : found = pre ++ (sitesBelow path index nodes ++ post))
    (hpre : AsideFrom path index pre) (hpost : AsideFrom path index post) :
    spliceBelow (planOf new ⟨found⟩) path index nodes = fillAll new (post.map Prod.fst) nodes := by
  cases nodes with
  | nil => rfl
  | cons node rest =>
      have hbehind := aside_sitesBelow path (Nat.lt_succ_self index) rest
      have hnode := splice_eq_fill (path ++ [index]) node pre
        (sitesBelow path (index + 1) rest ++ post)
        (by rw [hfound, sitesBelow, List.append_assoc]) (hpre index le_rfl)
        (hbehind.append (hpost index le_rfl))
      have hfront := (hpre.mono (Nat.le_succ index)).append (asideFrom_sitesAt path index node)
      have hrest := spliceBelow_eq_fillAll path (index + 1) rest
        (pre ++ sitesAt (path ++ [index]) node) post
        (by rw [hfound, sitesBelow, List.append_assoc, List.append_assoc]) hfront
        (hpost.mono (Nat.le_succ index))
      rw [spliceBelow, fillAll, hnode, hrest, List.map_append, sitesBelow_map_fst]

end

end pass

/-! ## The merged document -/

/-- A layer has a directive if it is among those of the document. -/
lemma has_find (nodes : List Node) (layer : Layer) :
    (Sites.find nodes).has layer = decide (layer ∈ layersOf nodes) := by
  rw [Bool.eq_iff_iff, decide_eq_true_iff, ← sitesBelow_map_fst [] 0 nodes, Sites.has, Sites.get?,
    Sites.find, List.lookup_isSome_iff, List.mem_map]
  simp only [List.mem_reverse, beq_iff_eq]
  exact exists_congr fun e => and_congr_right fun _ => eq_comm

/-- The directive chosen is the last one. -/
lemma span?_find (nodes : List Node) (layer : Layer) :
    (Sites.find nodes).span? layer = lastSpan? nodes layer := by
  rw [lastSpan?, ← sitesBelow_directives [] 0 nodes, ← List.map_reverse, lookup_map_snd Site.span,
    Sites.span?, Sites.get?, Sites.find]
  cases (sitesBelow [] 0 nodes).reverse.lookup layer <;> rfl

lemma variantFragments_find (sheet : Sheet) (nodes : List Node) :
    variantFragments sheet (Sites.find nodes) = belonging sheet (layersOf nodes) := by
  rw [variantFragments, belonging]
  refine List.filter_congr fun f _ => ?_
  simp only [qualifies, has_find]
  cases f.origin with
  | none => simp
  | some origin => cases origin <;> simp

/-- The plan puts the contents of each layer in place of its directive. -/
lemma plan_eq_planOf (nodes : List Node) (sheet : Sheet) :
    plan nodes sheet (Sites.find (withoutBlocks nodes)) =
      planOf (contents nodes sheet) (Sites.find (withoutBlocks nodes)) := by
  have hlayer : ∀ layer ∈ [Layer.base, .components, .utilities],
      layerPlan nodes sheet (Sites.find (withoutBlocks nodes)) layer =
        (((Sites.find (withoutBlocks nodes)).get? layer).map fun site =>
          (site.path, contents nodes sheet layer site.span)).toList := by
    intro layer hmem
    unfold layerPlan
    cases (Sites.find (withoutBlocks nodes)).get? layer with
    | none => rfl
    | some site =>
        simp only [List.mem_cons, List.not_mem_nil, or_false] at hmem
        rcases hmem with rfl | rfl | rfl <;> simp [contents]
  have hvariants : variantPlan sheet (Sites.find (withoutBlocks nodes)) =
      (((Sites.find (withoutBlocks nodes)).get? .variants).map fun site =>
        (site.path, contents nodes sheet .variants site.span)).toList := by
    rw [variantPlan, variantFragments_find]
    cases (Sites.find (withoutBlocks nodes)).get? .variants <;> rfl
  rw [plan, hlayer _ (by simp), hlayer _ (by simp), hlayer _ (by simp), hvariants]
  simp [planOf]

/-- What has no directive of its own follows the document. -/
lemma trailing_eq_leftover (sheet : Sheet) (document : List Node) :
    trailing sheet (Sites.find document) = leftover sheet document := by
  rw [trailing, leftover, variantFragments_find, has_find]
  simp only [decide_eq_true_eq, span?_find]

/-- A document with a directive is merged into the document without its blocks in which, for every
layer, the last directive gives way to the generated rules of the layer and what the blocks added to
it; rules made by variants follow if there is no directive for them. -/
theorem merge_eq_fillAll {nodes : List Node} (h : directives nodes ≠ []) (sheet : Sheet) :
    merge nodes sheet =
      fillAll (contents nodes sheet) [] (withoutBlocks nodes) ++
        leftover sheet (withoutBlocks nodes) := by
  have hsome : ¬ (Sites.find nodes).isEmpty = true := by
    rwa [find_isEmpty_iff]
  have hfound : sitesBelow [] 0 (withoutBlocks nodes) =
      [] ++ (sitesBelow [] 0 (withoutBlocks nodes) ++ []) := by simp
  have hpass := spliceBelow_eq_fillAll (contents nodes sheet) [] 0 (withoutBlocks nodes) [] []
    hfound (by simp [AsideFrom, Aside]) (by simp [AsideFrom, Aside])
  rw [merge, if_neg hsome]
  simp only [trailing_eq_leftover, plan_eq_planOf]
  rw [Sites.find, hpass]
  rfl

/-! ### A block, and a directive that is repeated -/

namespace Repeated

/-- A block in front of its directive, which stands in another rule and is repeated behind it. -/
def nodes : List Node :=
  [.block "@layer base" [.block ".a" [.block "@layer utilities" [.comment "x" none]]],
    .rule "@tailwind base" [] false (some ⟨0, 20, 35⟩),
    .block "@media print" [.rule "@tailwind base" [] false (some ⟨0, 50, 65⟩)]]

def sheet : Sheet :=
  ⟨[⟨.block "b" [], .base, none⟩, ⟨.block "c" [], .variants, some .utilities⟩,
    ⟨.block "d" [], .variants, some .base⟩, ⟨.block "e" [], .defaults, none⟩]⟩

/-- The first directive stays, and the other gives way to what is generated and what the block held.  Of
the rules made by variants one follows; the other was made from a layer that is not declared. -/
def merged : List Node :=
  [.rule "@tailwind base" [] false (some ⟨0, 20, 35⟩),
    .block "@media print"
      [.rule "e" [] true (some ⟨0, 50, 65⟩), .rule "b" [] true (some ⟨0, 50, 65⟩),
        .block ".a" [.comment "x" none]],
    .rule "d" [] true (some ⟨0, 50, 65⟩)]

end Repeated

open Repeated in
theorem merge_eq_fillAll_repeated : directives nodes ≠ [] ∧ merge nodes sheet = merged := by
  have hsome : directives nodes ≠ [] := by decide +kernel
  have hfilled : fillAll (contents nodes sheet) [] (withoutBlocks nodes) ++
      leftover sheet (withoutBlocks nodes) = merged := by
    with_unfolding_all rfl
  exact ⟨hsome, (merge_eq_fillAll hsome sheet).trans hfilled⟩

end UtilityCss.Directive
