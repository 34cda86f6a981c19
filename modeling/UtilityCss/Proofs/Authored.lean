import Mathlib.Data.List.Perm.Subperm
import UtilityCss.Proofs.Placement
import UtilityCss.Proofs.Starts

/-!
# Authored declarations in a merged document

`merge_keeps_declarations`: a declaration that stands outside directives and has a `destination?`
occurs once in the merged document, under that chain of rules, which can be read off the source.  A
block at top level is taken apart and its contents go where the directive for its layer was, so there
the chain changes; blocks inside other rules only leave the chain.  There is no destination where a
block is at top level and no directive of its layer gives way.

**One declaration among many.**  Declarations are told apart by their spans.  `filter_merge` follows
the declaration with a span through the three parts of a merged document: what is kept, what is put
in place of directives, and what follows.

**Where spans name declarations.**  `identifies_of_read`: in a source shorter than
`Span.offsetBound` all of them do, since no two nodes begin at the same byte.
-/

namespace UtilityCss.Directive

/-! ## Declarations in and outside blocks -/

/-- The layer of the block at top level that holds a declaration. -/
def Placed.block? (p : Placed) : Option Layer :=
  p.chain.head?.bind fun head => blockLayer? head.selector

/-- A declaration lies in a block at top level exactly if the tree that holds it is one. -/
lemma block?_of_mem_placed {node : Node} {p : Placed} (hp : p ∈ placed [] node) :
    p.block? = topBlock? node := by
  cases node with
  | rule selector nodes hasBlock span =>
      rw [placed, List.nil_append, placedAll_eq_map_under, List.mem_map] at hp
      obtain ⟨q, -, rfl⟩ := hp
      rfl
  | declaration property value important span =>
      rw [placed, List.mem_singleton] at hp
      rw [hp]
      rfl
  | comment text span => simp [placed] at hp

/-- Picking trees by their block is picking declarations by their block. -/
lemma flatMap_placed_filter (test : Option Layer → Bool) (nodes : List Node) :
    (nodes.filter fun node => test (topBlock? node)).flatMap (placed []) =
      (placedAll [] nodes).filter fun p => test p.block? := by
  induction nodes with
  | nil => rfl
  | cons node rest ih =>
      have hnode : (placed [] node).filter (fun p => test p.block?) =
          if test (topBlock? node) then placed [] node else [] := by
        split_ifs with htest
        · rw [List.filter_eq_self]
          intro p hp
          rwa [block?_of_mem_placed hp]
        · rw [List.filter_eq_nil_iff]
          intro p hp
          rwa [block?_of_mem_placed hp]
      rw [placedAll, List.filter_append, ← ih, hnode, List.filter_cons]
      split_ifs <;> simp

/-- Without the blocks the document has the declarations that lie in none, their wrappers taken off. -/
lemma placedAll_withoutBlocks (nodes : List Node) :
    placedAll [] (withoutBlocks nodes) =
      ((placedAll [] nodes).filter fun p => p.block?.isNone).map Placed.unwrapped := by
  rw [withoutBlocks, placedAll_flatMap, ← flatMap_placed_filter Option.isNone, List.map_flatMap]
  refine List.flatMap_congr fun node _ => ?_
  rw [placedAll_unwrap]
  rfl

/-- The contents of the blocks of a layer are the declarations that lie in these blocks. -/
lemma placedAll_authored (chain : List Head) (nodes : List Node) (layer : Layer) :
    placedAll chain (authored nodes layer) =
      ((placedAll [] nodes).filter fun p => decide (p.block? = some layer)).map
        fun p => p.unwrapped.under chain := by
  rw [authored, placedAll_flatMap, ← flatMap_placed_filter (fun b => decide (b = some layer)),
    List.map_flatMap]
  exact List.flatMap_congr fun node _ => placedAll_unwrap chain node

/-! ## Old spellings -/

def Head.modern (head : Head) : Head :=
  { head with selector := if isScreens head.selector then "@tailwind variants" else head.selector }

def Placed.modern (p : Placed) : Placed :=
  { p with chain := p.chain.map Head.modern }

mutual

/-- Respelling changes the heads above a declaration and nothing else. -/
lemma placed_modernize (chain : List Head) (node : Node) :
    placed (chain.map Head.modern) (modernize node) =
      (placed chain node).map Placed.modern := by
  cases node with
  | rule selector nodes hasBlock span =>
      have hchildren := placedAll_modernizeAll (chain ++ [⟨selector, hasBlock, span⟩]) nodes
      rwa [List.map_append] at hchildren
  | declaration property value important span => rfl
  | comment text span => rfl

/-- Respelling directives changes their selectors in the chains, and nothing else. -/
lemma placedAll_modernizeAll (chain : List Head) (nodes : List Node) :
    placedAll (chain.map Head.modern) (modernizeAll nodes) =
      (placedAll chain nodes).map Placed.modern := by
  cases nodes with
  | nil => rfl
  | cons node rest =>
      rw [modernizeAll, placedAll, placedAll, List.map_append, placed_modernize,
        placedAll_modernizeAll]

end

/-- Above a declaration outside all directives nothing is respelled. -/
lemma modern_of_outside {p : Placed} (h : p.outside = true) : p.modern = p := by
  suffices hchain : p.chain.map Head.modern = p.chain by rw [Placed.modern, hchain]
  rw [Placed.outside, List.all_eq_true] at h
  refine (List.map_congr_left fun head hhead => ?_).trans (List.map_id _)
  have hnone := Option.isNone_iff_eq_none.1 (h head hhead)
  have hscreens : isScreens head.selector = false := by
    rw [Bool.eq_false_iff]
    intro hscreens
    rw [declaredLayer?_screens hscreens] at hnone
    exact absurd hnone (by decide +kernel)
  rw [Head.modern, hscreens]
  rfl

/-! ## Picking a declaration by its span -/

/-- A span tells a declaration of the document from the rest of what is there. -/
def Placed.hasSpan (s : Span) (p : Placed) : Bool :=
  decide (p.span = some s)

/-- Moving declarations does not change which of them has a span. -/
lemma filter_hasSpan_map (s : Span) (move : Placed → Placed)
    (hmove : ∀ p, (move p).span = p.span) (l : List Placed) :
    (l.map move).filter (Placed.hasSpan s) = (l.filter (Placed.hasSpan s)).map move := by
  have hsame : Placed.hasSpan s ∘ move = Placed.hasSpan s := by
    funext p
    simp [Placed.hasSpan, hmove]
  rw [List.filter_map, hsame]

/-- Where the contents of a layer's block at top level are put: the rules around the directive that
gives way for the layer. -/
def home? (document : List Node) (layer : Layer) : Option (List Head) :=
  ((replacedAll [] [] (withoutBlocks document)).lookup layer).map Prod.snd

/-- The rules around a declaration of a document once it is merged. -/
def destination? (document : List Node) : List Head → Option (List Head)
  | [] => some []
  | head :: inner =>
    match blockLayer? head.selector with
    | some layer => (home? document layer).map (· ++ withoutWrappers inner)
    | none => some (withoutWrappers (head :: inner))

/-- What lies in no block stays where it is. -/
lemma destination?_of_not_block {document : List Node} {p : Placed} (hblock : p.block? = none) :
    destination? document p.chain = some (withoutWrappers p.chain) := by
  unfold Placed.block? at hblock
  cases hchain : p.chain with
  | nil => rfl
  | cons head inner =>
      rw [hchain, List.head?_cons, Option.bind_some] at hblock
      rw [destination?, hblock]

/-- What lies in a block goes where its layer is put, if that is anywhere. -/
lemma destination?_of_block {document : List Node} {p : Placed} {layer : Layer}
    (hblock : p.block? = some layer) :
    destination? document p.chain = (home? document layer).map (· ++ withoutWrappers p.chain) := by
  unfold Placed.block? at hblock
  cases hchain : p.chain with
  | nil => simp [hchain] at hblock
  | cons head inner =>
      rw [hchain, List.head?_cons, Option.bind_some] at hblock
      have hwrapper : head.isWrapper = true := by simp [Head.isWrapper, hblock]
      rw [destination?, hblock, withoutWrappers_cons, if_pos hwrapper]

section spans
variable {sheet : Sheet} {s : Span} (hcarry : ¬ Carries sheet s)
include hcarry

/-- Generated rules hold no declaration of the document: their spans are those of directives. -/
lemma filter_emit {span : Option Span} (hspan : span ≠ some s) {fragments : List Fragment}
    (hsub : ∀ f ∈ fragments, f ∈ sheet.fragments) (chain : List Head) :
    (placedAll chain (emit span fragments)).filter (Placed.hasSpan s) = [] := by
  rw [List.filter_eq_nil_iff]
  intro p hp hs
  rcases span_of_mem_emit hsub hp (of_decide_eq_true hs) with h | h
  · exact hspan h
  · exact hcarry h

/-- Of the contents of a layer only the authored ones can have a span of the document. -/
lemma filter_contents {span : Option Span} (hspan : span ≠ some s) (nodes : List Node)
    (layer : Layer) (chain : List Head) :
    (placedAll chain (contents nodes sheet layer span)).filter (Placed.hasSpan s) =
      if layer = .defaults ∨ layer = .variants then []
      else (placedAll chain (authored nodes layer)).filter (Placed.hasSpan s) := by
  have hbucket : ∀ layer, ∀ f ∈ sheet.bucket layer, f ∈ sheet.fragments :=
    fun layer f hf => List.mem_of_mem_filter hf
  have hbelong : ∀ declared, ∀ f ∈ belonging sheet declared, f ∈ sheet.fragments :=
    fun declared f hf => hbucket .variants f (List.mem_of_mem_filter hf)
  cases layer with
  | defaults => rfl
  | base =>
      simp [contents, placedAll_append, filter_emit hcarry hspan (hbucket .defaults),
        filter_emit hcarry hspan (hbucket .base)]
  | components =>
      simp [contents, placedAll_append, filter_emit hcarry hspan (hbucket .components)]
  | utilities =>
      simp [contents, placedAll_append, filter_emit hcarry hspan (hbucket .utilities)]
  | variants => simp [contents, filter_emit hcarry hspan (hbelong _)]

/-- The rules that follow the document hold none of its declarations either. -/
lemma filter_leftover {document : List Node}
    (hdirectives : ∀ layer, (layer, some s) ∉ directives document) :
    (placedAll [] (leftover sheet document)).filter (Placed.hasSpan s) = [] := by
  rw [List.filter_eq_nil_iff]
  intro p hp hs
  rw [leftover] at hp
  split_ifs at hp
  · simp [placedAll] at hp
  · rw [placedAll_eq_flatMap, List.mem_flatMap] at hp
    obtain ⟨node, hnode, hp⟩ := hp
    obtain ⟨f, hf, rfl⟩ := List.mem_map.1 hnode
    rcases span_of_mem_backfill? hp (of_decide_eq_true hs) with hspan | hown
    · obtain ⟨origin, -, hlast⟩ := Option.bind_eq_some_iff.1 hspan
      rw [lastSpan?, Option.join_eq_some_iff] at hlast
      exact hdirectives origin (List.mem_reverse.1 (mem_of_lookup hlast))
    · exact hcarry ⟨f, List.mem_of_mem_filter (List.mem_of_mem_filter hf), hown⟩

end spans

/-! ## The merged document -/

/-- No block adds to the two layers that only rules are generated for. -/
lemma blockLayer?_core {selector : String} {layer : Layer}
    (h : blockLayer? selector = some layer) : ¬ (layer = .defaults ∨ layer = .variants) := by
  unfold blockLayer? Layer.ofBlock? at h
  split at h
  · split_ifs at h <;> cases h <;> simp
  · cases h

lemma block?_core {p : Placed} {layer : Layer} (h : p.block? = some layer) :
    ¬ (layer = .defaults ∨ layer = .variants) := by
  obtain ⟨head, -, hhead⟩ := Option.bind_eq_some_iff.1 h
  exact blockLayer?_core hhead

lemma outside_unwrapped {p : Placed} (h : p.outside = true) : p.unwrapped.outside = true := by
  rw [Placed.outside, List.all_eq_true] at h ⊢
  exact fun head hhead => h head (List.mem_of_mem_filter hhead)

/-- Of entries with different keys, the one for a key is all that is picked by the key. -/
lemma flatMap_ite_of_lookup {β γ : Type} {l : List (Layer × β)} {layer : Layer} {v : β}
    (hnodup : (l.map Prod.fst).Nodup) (hlookup : l.lookup layer = some v) (g : β → List γ) :
    (l.flatMap fun e => if e.1 = layer then g e.2 else []) = g v := by
  induction l with
  | nil => simp at hlookup
  | cons e l ih =>
      rw [List.map_cons, List.nodup_cons] at hnodup
      obtain ⟨key, w⟩ := e
      by_cases hkey : key = layer
      · subst hkey
        obtain rfl : w = v := by simpa using hlookup
        have hrest : (l.flatMap fun e => if e.1 = key then g e.2 else []) = [] := by
          rw [List.flatMap_eq_nil_iff]
          intro e he
          exact if_neg fun hkey => hnodup.1 (List.mem_map.2 ⟨e, he, hkey⟩)
        rw [List.flatMap_cons, hrest, if_pos rfl, List.append_nil]
      · have hlookup' : l.lookup layer = some v := by
          simpa [List.lookup_cons, beq_false_of_ne (Ne.symm hkey)] using hlookup
        rw [List.flatMap_cons, if_neg hkey, ih hnodup.2 hlookup', List.nil_append]

section merged
variable {document : List Node} {sheet : Sheet} {s : Span} {p : Placed}
  (hpick : (placedAll [] document).filter (Placed.hasSpan s) = [p])
  (hdirectives : ∀ layer, (layer, some s) ∉ directives document)
  (hcarry : ¬ Carries sheet s)

include hpick in
/-- What the document keeps of one declaration when its blocks are taken out. -/
lemma filter_withoutBlocks :
    (placedAll [] (withoutBlocks document)).filter (Placed.hasSpan s) =
      if p.block?.isNone then [p.unwrapped] else [] := by
  rw [placedAll_withoutBlocks, filter_hasSpan_map s Placed.unwrapped (fun _ => rfl),
    List.filter_comm, hpick, List.filter_singleton]
  cases p.block?.isNone <;> rfl

include hpick in
/-- What a layer takes over of one declaration. -/
lemma filter_authored (chain : List Head) (layer : Layer) :
    (placedAll chain (authored document layer)).filter (Placed.hasSpan s) =
      if p.block? = some layer then [p.unwrapped.under chain] else [] := by
  rw [placedAll_authored, filter_hasSpan_map s (fun p => p.unwrapped.under chain) (fun _ => rfl),
    List.filter_comm, hpick, List.filter_singleton]
  by_cases hblock : p.block? = some layer <;> simp [hblock]

include hpick in
/-- Outside the directives that give way nothing changes. -/
lemma filter_kept (hout : p.outside = true) :
    (placedAll [] (fillAll (fun _ _ => []) [] (withoutBlocks document))).filter
        (Placed.hasSpan s) = if p.block?.isNone then [p.unwrapped] else [] := by
  have hdocument := filter_withoutBlocks hpick
  split_ifs with hblock
  · rw [if_pos hblock] at hdocument
    exact filter_fillAll_of_outside hdocument (outside_unwrapped hout) []
  · rw [if_neg hblock] at hdocument
    have hsub := (fillAll_empty_sublist [] [] (withoutBlocks document)).filter (Placed.hasSpan s)
    rw [hdocument] at hsub
    exact List.sublist_nil.1 hsub

include hpick hdirectives hcarry in
/-- Of what is put in place of directives, the contents of the declaration's own block hold it. -/
lemma filter_placedContents :
    (placedContents (contents document sheet)
        (replacedAll [] [] (withoutBlocks document))).filter (Placed.hasSpan s) =
      (replacedAll [] [] (withoutBlocks document)).flatMap fun site =>
        if p.block? = some site.1 then [p.unwrapped.under site.2.2] else [] := by
  rw [placedContents, List.filter_flatMap]
  refine List.flatMap_congr fun site hsite => ?_
  have hspan : site.2.1 ≠ some s := by
    intro hspan
    have := mem_directives_of_withoutBlocks (mem_directives_of_mem_replacedAll hsite)
    rw [hspan] at this
    exact hdirectives site.1 this
  rw [filter_contents hcarry hspan, filter_authored hpick]
  split_ifs with hgenerated hblock
  · exact absurd hgenerated (block?_core hblock)
  · rfl
  · rfl
  · rfl

include hpick hdirectives hcarry in
/-- A declaration outside all directives that its span picks out of a document is picked out of the
merged document too, under its destination. -/
lemma filter_merge (hsome : directives document ≠ []) (hout : p.outside = true)
    {chain : List Head} (hchain : destination? document p.chain = some chain) :
    (placedAll [] (merge document sheet)).filter (Placed.hasSpan s) =
      [{ p with chain := chain }] := by
  have hcore := fun layer h => hdirectives layer (mem_directives_of_withoutBlocks h)
  have hperm := (placedAll_fillAll (contents document sheet) [] []
    (withoutBlocks document)).filter (Placed.hasSpan s)
  rw [List.filter_append, filter_kept hpick hout,
    filter_placedContents hpick hdirectives hcarry] at hperm
  rw [merge_eq_fillAll hsome, placedAll_append, List.filter_append, filter_leftover hcarry hcore,
    List.append_nil]
  cases hblock : p.block? with
  | none =>
      rw [destination?_of_not_block hblock, Option.some.injEq] at hchain
      rw [hblock, List.flatMap_eq_nil_iff.2 (by simp)] at hperm
      rw [← hchain]
      exact List.perm_singleton.1 hperm
  | some layer =>
      rw [destination?_of_block hblock, home?, Option.map_map, Option.map_eq_some_iff] at hchain
      obtain ⟨⟨span, front⟩, hlookup, rfl⟩ := hchain
      have hnodup := (replacedAll_layers [] [] (withoutBlocks document)).1
      have hcontents := flatMap_ite_of_lookup hnodup hlookup fun v => [p.unwrapped.under v.2]
      simp only [hblock, Option.some.injEq, eq_comm (a := layer), hcontents] at hperm
      exact List.perm_singleton.1 hperm

end merged

/-! ## Documents without directives -/

mutual

/-- The rules around a declaration are the chain above the tree or rules of the tree. -/
lemma mem_visits_of_mem_placed {chain : List Head} {node : Node} {p : Placed}
    (hp : p ∈ placed chain node) {head : Head} (hhead : head ∈ p.chain) (d : Nat) :
    head ∈ chain ∨ ∃ nodes, .rule head.selector nodes head.hasBlock head.span ∈
      (node.visits d).map Prod.snd := by
  cases node with
  | rule selector nodes hasBlock span =>
      rcases mem_visitsAll_of_mem_placedAll hp hhead (d + 1) with hin | ⟨inner, hin⟩
      · rcases List.mem_append.1 hin with hin | hin
        · exact Or.inl hin
        · rw [List.mem_singleton] at hin
          subst hin
          exact Or.inr ⟨nodes, by simp [Node.visits]⟩
      · exact Or.inr ⟨inner, by simp only [Node.visits, List.map_cons]; exact .tail _ hin⟩
  | declaration property value important span =>
      rw [placed, List.mem_singleton] at hp
      subst hp
      exact Or.inl hhead
  | comment text span => simp [placed] at hp

/-- The rules around a declaration are rules of the forest. -/
lemma mem_visitsAll_of_mem_placedAll {chain : List Head} {nodes : List Node} {p : Placed}
    (hp : p ∈ placedAll chain nodes) {head : Head} (hhead : head ∈ p.chain) (d : Nat) :
    head ∈ chain ∨ ∃ inner, .rule head.selector inner head.hasBlock head.span ∈
      (Node.visitsAll d nodes).map Prod.snd := by
  cases nodes with
  | nil => simp [placedAll] at hp
  | cons node rest =>
      rw [placedAll, List.mem_append] at hp
      simp only [Node.visitsAll, List.map_append, List.mem_append]
      rcases hp with hp | hp
      · refine (mem_visits_of_mem_placed hp hhead d).imp_right ?_
        rintro ⟨inner, hin⟩
        exact ⟨inner, Or.inl hin⟩
      · refine (mem_visitsAll_of_mem_placedAll hp hhead d).imp_right ?_
        rintro ⟨inner, hin⟩
        exact ⟨inner, Or.inr hin⟩

end

/-- A block whose layer nothing declares is an error. -/
lemma blockError?_of_wrapper {registry : Registry} {selector : String} (span : Option Span)
    (hwrapper : (blockLayer? selector).isSome = true)
    (hnone : ∀ layer ∈ Registry.coreLayers, registry.has layer = false) :
    ∃ name params, Node.splitAtRule? selector.toList = some (name, params) ∧
      (blockError? registry ⟨name, params, span⟩).isSome = true := by
  unfold blockLayer? at hwrapper
  cases hsplit : Node.splitAtRule? selector.toList with
  | none => simp [hsplit] at hwrapper
  | some head =>
      obtain ⟨name, params⟩ := head
      rw [hsplit] at hwrapper
      dsimp only at hwrapper
      split_ifs at hwrapper with hname
      · have hcore : params ∈ Registry.coreLayers := by
          unfold Layer.ofBlock? at hwrapper
          split_ifs at hwrapper <;> simp_all [Registry.coreLayers]
        refine ⟨name, params, rfl, ?_⟩
        simp [blockError?, hname, hcore, hnone params hcore]
      · simp at hwrapper

/-- A document that declares nothing and is accepted has no blocks. -/
lemma isWrapper_eq_false_of_accepted {nodes : List Node}
    (haccept : firstError? (registryOf (atRules nodes)) (atRules nodes) = none)
    (hnone : directives nodes = []) {p : Placed} (hp : p ∈ placedAll [] nodes) {head : Head}
    (hhead : head ∈ p.chain) : head.isWrapper = false := by
  have hhas : ∀ layer : Layer, layer ≠ .defaults →
      (registryOf (atRules nodes)).has layer.name = false := by
    intro layer hlayer
    rw [Bool.eq_false_iff, ne_eq, registry_has_name_iff layer hlayer, hnone]
    simp
  have hcore : ∀ layer ∈ Registry.coreLayers,
      (registryOf (atRules nodes)).has layer = false := by
    simp only [Registry.coreLayers, List.forall_mem_cons]
    exact ⟨hhas .base (by simp), hhas .components (by simp), hhas .utilities (by simp), by simp⟩
  have hall : (registryOf (atRules nodes)).hasAllCore = false := by
    rw [Registry.hasAllCore, List.all_eq_false]
    have hbase : "base" ∈ Registry.coreLayers := by simp [Registry.coreLayers]
    exact ⟨"base", hbase, by simp [hcore "base" hbase]⟩
  rw [firstError?, hall, if_neg Bool.false_ne_true, List.findSome?_eq_none_iff] at haccept
  rw [Bool.eq_false_iff]
  intro hwrapper
  obtain ⟨name, params, hsplit, herror⟩ := blockError?_of_wrapper head.span hwrapper hcore
  obtain hin | ⟨inner, hin⟩ := mem_visitsAll_of_mem_placedAll hp hhead 0
  · simp at hin
  · obtain ⟨visit, hvisit, hnode⟩ := List.mem_map.1 hin
    have hrule : ⟨name, params, head.span⟩ ∈ atRules nodes := by
      rw [atRules, List.mem_filterMap]
      refine ⟨visit, hvisit, ?_⟩
      simp [hnode, Node.atRule?, hsplit, Node.span]
    rw [haccept _ hrule] at herror
    simp at herror

/-! ## Spans as names of declarations -/

/-- A span that one declaration of a document has, and no directive of it and nothing generated. -/
structure Identifies (s : Span) (nodes : List Node) (sheet : Sheet) : Prop where
  declaration : ∃ p, (placedAll [] nodes).filter (Placed.hasSpan s) = [p]
  directive : ∀ layer, (layer, some s) ∉ directives nodes
  generated : ¬ Carries sheet s

mutual

/-- Declarations and directives of a tree have different nodes, so their marks are among its marks. -/
lemma marks_subperm (chain : List Head) (node : Node) :
    ((placed chain node).map (fun p => p.span.map Span.mark) ++
      (directives [node]).map (fun e => e.2.map Span.mark)).Subperm node.marks := by
  cases node with
  | rule selector nodes hasBlock span =>
      have hchildren := marksAll_subperm (chain ++ [⟨selector, hasBlock, span⟩]) nodes
      rw [placed, directives_rule, directives_nil, List.append_nil, Node.marks]
      cases declaredLayer? selector with
      | none =>
          exact hchildren.trans (List.sublist_cons_self _ _).subperm
      | some layer =>
          refine List.perm_middle.subperm.trans ?_
          exact (List.subperm_cons _).2 hchildren
  | declaration property value important span => simp [placed, Node.marks]
  | comment text span => simp [placed, Node.marks]

/-- Declarations and directives begin where nodes of the forest do, each at its own. -/
lemma marksAll_subperm (chain : List Head) (nodes : List Node) :
    ((placedAll chain nodes).map (fun p => p.span.map Span.mark) ++
      (directives nodes).map (fun e => e.2.map Span.mark)).Subperm (Node.marksAll nodes) := by
  cases nodes with
  | nil => simp [placedAll, Node.marksAll]
  | cons node rest =>
      have happend := (marks_subperm chain node).append (marksAll_subperm chain rest)
      rw [placedAll, directives_cons, List.map_append, List.map_append, Node.marksAll]
      refine List.Subperm.trans ?_ happend
      simp only [List.append_assoc]
      exact ((List.perm_append_comm_assoc _ _ _).append_left _).subperm

end

/-- An entry is all that a test picks if the test goes by a value that no other entry has. -/
lemma filter_eq_singleton {α β : Type} {l : List α} {f : α → β} (hnodup : (l.map f).Nodup) {a : α}
    (ha : a ∈ l) {test : α → Bool} (htest : ∀ b, test b = true → f b = f a)
    (hself : test a = true) : l.filter test = [a] := by
  induction l with
  | nil => simp at ha
  | cons b l ih =>
      rw [List.map_cons, List.nodup_cons] at hnodup
      rcases List.mem_cons.1 ha with rfl | hin
      · have hrest : l.filter test = [] := by
          rw [List.filter_eq_nil_iff]
          intro b hb hpick
          exact hnodup.1 (List.mem_map.2 ⟨b, hb, htest b hpick⟩)
        rw [List.filter_cons, if_pos hself, hrest]
      · have hb : ¬ test b = true := by
          intro hpick
          exact hnodup.1 (List.mem_map.2 ⟨a, hin, (htest b hpick).symm⟩)
        rw [List.filter_cons, if_neg hb, ih hnodup.2 hin]

/-- In a source shorter than `Span.offsetBound` every declaration is named by its span. -/
lemma identifies_of_read {file : Nat} {text : String} {nodes : List Node}
    (hsize : text.utf8ByteSize < Span.offsetBound) (hread : readStylesheet file text = .ok nodes)
    {sheet : Sheet} (hsheet : ∀ s, Carries sheet s → s.file ≠ file) {p : Placed}
    (hp : p ∈ placedAll [] nodes) : ∃ s, p.span = some s ∧ Identifies s nodes sheet := by
  obtain ⟨hnodup, hfile⟩ := readStylesheet_marks hsize hread
  obtain ⟨marks, hperm, hsub⟩ := marksAll_subperm [] nodes
  have hdistinct := hperm.nodup_iff.1 (hsub.nodup hnodup)
  have hmem : p.span.map Span.mark ∈ (placedAll [] nodes).map fun p => p.span.map Span.mark :=
    List.mem_map_of_mem (f := fun p : Placed => p.span.map Span.mark) hp
  obtain ⟨n, hn⟩ := hfile _ (hsub.subset (hperm.mem_iff.2 (List.mem_append_left _ hmem)))
  obtain ⟨s, hs, hmark⟩ := Option.map_eq_some_iff.1 hn
  refine ⟨s, hs, ⟨p, ?_⟩, fun layer hlayer => ?_, fun hcarry => ?_⟩
  · refine filter_eq_singleton (List.nodup_append.1 hdistinct).1 hp (fun q hq => ?_) ?_
    · rw [of_decide_eq_true hq, hs]
    · exact decide_eq_true hs
  · have hmem' : some s.mark ∈ (directives nodes).map fun e => e.2.map Span.mark :=
      List.mem_map.2 ⟨_, hlayer, rfl⟩
    rw [hs] at hmem
    exact (List.nodup_append.1 hdistinct).2.2 _ hmem _ hmem' rfl
  · exact hsheet s hcarry (congrArg Prod.fst hmark)

/-! ## The whole way from the source -/

lemma withoutWrappers_eq_self {chain : List Head} (h : ∀ head ∈ chain, head.isWrapper = false) :
    withoutWrappers chain = chain := by
  rw [withoutWrappers, List.filter_eq_self]
  intro head hhead
  rw [h head hhead]
  rfl

/-- Declarations outside directives have the same names and chains in modern spelling. -/
lemma filter_modernizeAll {nodes : List Node} {s : Span} {p : Placed}
    (hpick : (placedAll [] nodes).filter (Placed.hasSpan s) = [p]) (hout : p.outside = true) :
    (placedAll [] (modernizeAll nodes)).filter (Placed.hasSpan s) = [p] := by
  have hmodern := placedAll_modernizeAll [] nodes
  rw [List.map_nil] at hmodern
  rw [hmodern, filter_hasSpan_map s Placed.modern (fun _ => rfl), hpick, List.map_singleton,
    modern_of_outside hout]

/-- A declaration of an accepted document that stands outside directives and has a `destination?`
occurs once in the merged document, with that chain of rules around it; of the others nothing is said.
Outside blocks at top level there always is one, the chain without its wrappers.  In a block at top
level for a layer there is one if a directive gives way for the layer: the rules around the directive,
followed by the chain without wrappers.  The span that names a declaration is its own in every source
shorter than `Span.offsetBound`. -/
theorem merge_keeps_declarations {file : Nat} {text : String} {nodes : List Node}
    (hread : readStylesheet file text = .ok nodes) {sink sink' : Sink} {registry : Registry}
    {document : List Node}
    (haccept : normalize nodes sink = (.ok (registry, document), sink')) (sheet : Sheet) :
    (∀ p ∈ placedAll [] nodes, p.outside = true → ∀ s, p.span = some s →
      Identifies s nodes sheet → ∀ chain, destination? document p.chain = some chain →
        (placedAll [] (merge document sheet)).filter (Placed.hasSpan s) =
          [{ p with chain := chain }]) ∧
      (text.utf8ByteSize < Span.offsetBound → (∀ s, Carries sheet s → s.file ≠ file) →
        ∀ p ∈ placedAll [] nodes, ∃ s, p.span = some s ∧ Identifies s nodes sheet) := by
  refine ⟨fun p hp hout s hs hname chain hchain => ?_,
    fun hsize hsheet p hp => identifies_of_read hsize hread hsheet hp⟩
  obtain ⟨hfirst, -, rfl⟩ := of_normalize_eq_ok (congrArg Prod.fst haccept)
  have hpick : (placedAll [] nodes).filter (Placed.hasSpan s) = [p] := by
    obtain ⟨q, hq⟩ := hname.declaration
    have hmem : p ∈ (placedAll [] nodes).filter (Placed.hasSpan s) :=
      List.mem_filter.2 ⟨hp, decide_eq_true hs⟩
    rw [hq, List.mem_singleton] at hmem
    rw [hq, hmem]
  have hpick' := filter_modernizeAll hpick hout
  have hsame := directives_modernizeAll nodes
  by_cases hnone : directives nodes = []
  · -- Nothing is declared, so there is no wrapper either and the document stays as it is.
    have hchain' : chain = p.chain := by
      have hwrapper : ∀ head ∈ p.chain, head.isWrapper = false :=
        fun head hhead => isWrapper_eq_false_of_accepted hfirst hnone hp hhead
      have hblock : p.block? = none := by
        rw [Placed.block?, Option.bind_eq_none_iff]
        intro head hhead
        simpa [Head.isWrapper] using hwrapper head (List.mem_of_mem_head? hhead)
      rw [destination?_of_not_block hblock, withoutWrappers_eq_self hwrapper] at hchain
      exact (Option.some.inj hchain).symm
    rw [merge, if_pos ((find_isEmpty_iff _).2 (hsame.trans hnone)), hpick', hchain']
  · exact filter_merge hpick' (hsame ▸ hname.directive) hname.generated (hsame ▸ hnone) hout hchain

namespace Moved

def text : String := "@media print\x7b@tailwind base;\x7d@layer base\x7b.a\x7bcolor:red\x7d\x7d"

def sheet : Sheet := ⟨[⟨.block "b" [.declaration "margin" "0" false none], .base, none⟩]⟩

/-- The declaration as it stands in the text. -/
def declaration : Placed :=
  ⟨[⟨"@layer base", true, some ⟨0, 29, 55⟩⟩, ⟨".a", true, some ⟨0, 41, 54⟩⟩], "color", "red", false,
    some ⟨0, 44, 53⟩⟩

/-- The rules around it in the merged document. -/
def chain : List Head :=
  [⟨"@media print", true, some ⟨0, 0, 29⟩⟩, ⟨".a", true, some ⟨0, 41, 54⟩⟩]

end Moved

/-- A block at top level whose directive stands in another rule. -/
theorem merge_keeps_declarations_moved :
    ∃ nodes registry document sink, readStylesheet 0 Moved.text = .ok nodes ∧
      normalize nodes .empty = (.ok (registry, document), sink) ∧
      placedAll [] nodes = [Moved.declaration] ∧
      (placedAll [] (merge document Moved.sheet)).filter (Placed.hasSpan ⟨0, 44, 53⟩) =
        [{ Moved.declaration with chain := Moved.chain }] := by
  have hplaced : (readStylesheet 0 Moved.text).toOption.map (placedAll []) =
      some [Moved.declaration] := by
    decide +kernel
  have hdestination : ((readStylesheet 0 Moved.text).toOption.bind fun nodes =>
      (normalize nodes .empty).1.toOption.map fun found =>
        destination? found.2 Moved.declaration.chain) = some (some Moved.chain) := by
    decide +kernel
  cases hread : readStylesheet 0 Moved.text with
  | error e => simp [hread, Except.toOption] at hplaced
  | ok nodes =>
      replace hplaced : placedAll [] nodes = [Moved.declaration] := by
        simpa [hread, Except.toOption] using hplaced
      cases hnormal : normalize nodes .empty with
      | mk verdict sink =>
          cases verdict with
          | error e => simp [hread, hnormal, Except.toOption] at hdestination
          | ok found =>
              obtain ⟨registry, document⟩ := found
              obtain ⟨hkeep, hnames⟩ := merge_keeps_declarations hread hnormal Moved.sheet
              have hmem : Moved.declaration ∈ placedAll [] nodes := by simp [hplaced]
              have hsheet : ∀ s, Carries Moved.sheet s → s.file ≠ 0 := by
                rintro s ⟨f, hf, p, hp, hs⟩
                simp [Moved.sheet] at hf
                subst hf
                simp [placed, placedAll, Node.block] at hp
                simp [hp] at hs
              obtain ⟨s, hs, hname⟩ := hnames (by decide +kernel) hsheet _ hmem
              obtain rfl : (⟨0, 44, 53⟩ : Span) = s := Option.some.inj hs
              refine ⟨nodes, registry, document, sink, rfl, hnormal, hplaced, ?_⟩
              exact hkeep _ hmem (by decide +kernel) _ hs hname _
                (by simpa [hread, hnormal, Except.toOption] using hdestination)

/-- The declarations of a source as they stand in it and in the merged document. -/
def mergedPlaces? (text : String) (sheet : Sheet) : Option (List Placed × List Placed) := do
  let nodes ← (readStylesheet 0 text).toOption
  let (_, document) ← (normalize nodes .empty).1.toOption
  return (placedAll [] nodes, placedAll [] (merge document sheet))

/-- A chain need not be kept up to wrappers, and a declaration need not be kept: contents of a block
move to their directive, and are dropped if the directive stands in a block itself. -/
theorem merge_moves_and_drops_declarations :
    (∃ p q, mergedPlaces?
        "@media print\x7b@tailwind base;\x7d@layer base\x7b.a\x7bcolor:red\x7d\x7d" ⟨[]⟩ =
        some ([p], [q]) ∧ p.outside = true ∧ q ≠ p.unwrapped) ∧
      ∃ p, mergedPlaces? "@layer base\x7b@tailwind base;.a\x7bcolor:red\x7d\x7d" ⟨[]⟩ =
          some ([p], []) ∧
        p.outside = true := by
  refine ⟨⟨Moved.declaration, { Moved.declaration with chain := Moved.chain }, ?_⟩,
    ⟨[⟨"@layer base", true, some ⟨0, 0, 41⟩⟩, ⟨".a", true, some ⟨0, 27, 40⟩⟩], "color", "red",
      false, some ⟨0, 30, 39⟩⟩, ?_⟩
  · decide +kernel
  · decide +kernel

end UtilityCss.Directive
