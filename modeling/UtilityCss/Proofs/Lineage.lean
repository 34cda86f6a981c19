import UtilityCss.Proofs.Generated
import UtilityCss.Proofs.Placement

/-!
# Where the nodes of a built stylesheet come from

Every node of a stylesheet that was built points at the source: an authored node at the place it was
read from, a generated one at the directive that called for it.

* **Origin** — `Traced`: a node was read from the source, with its own span and with children that are
  traced in turn, or it is the root of a fragment that was `Emitted` for a directive.  `target?` is the
  directive that `merge` chooses for a fragment.
* **Merging** — taking blocks apart and carrying out a plan keep trees traced (`authored_unwrap`,
  `traced_splice`); what is planned is traced because every directive has a span
  (`exists_span?_of_get?`).
* **Building** — `compile_lineage`: so it is for every build of a session.
-/

namespace UtilityCss

/-- The nodes of a forest, at any depth. -/
def Node.everyNode (nodes : List Node) : List Node :=
  (Node.visitsAll 0 nodes).map Prod.snd

namespace Directive

/-- The span of the directive that a fragment is emitted for.  Those of the defaults go with the base
layer; those made by variants have a directive of their own, or else follow the layer they were made
from. -/
def target? (sites : Sites) (f : Fragment) : Option Span :=
  match f.layer with
  | .defaults => sites.span? .base
  | .base => sites.span? .base
  | .components => sites.span? .components
  | .utilities => sites.span? .utilities
  | .variants => if sites.has .variants then sites.span? .variants else f.origin.bind sites.span?

/-- The tree is a generated fragment, and all of it has the span of its directive. -/
def Emitted (made : Fragment → Prop) (sites : Sites) (node : Node) : Prop :=
  ∃ f s, made f ∧ target? sites f = some s ∧ node = f.node.backfill s ∧ node.Spanned (· = some s)

/-- A tree of nodes that were read, each with the span it was read with, and of emitted trees.  A
selector may be respelled on the way. -/
inductive Traced (read : List Node) (emitted : Node → Prop) : Node → Prop
  | declaration {property value : String} {important : Bool} {span : Option Span}
      (hread : .declaration property value important span ∈ Node.everyNode read) :
      Traced read emitted (.declaration property value important span)
  | comment {text : String} {span : Option Span} (hread : .comment text span ∈ Node.everyNode read) :
      Traced read emitted (.comment text span)
  | rule {selector : String} {children nodes : List Node} {hasBlock : Bool} {span : Option Span}
      (hread : .rule selector children hasBlock span ∈ Node.everyNode read)
      (hnodes : ∀ node ∈ nodes, Traced read emitted node) :
      Traced read emitted
        (.rule (if isScreens selector then "@tailwind variants" else selector) nodes hasBlock span)
  | emitted {node : Node} (h : emitted node) : Traced read emitted node

/-- A tree of nodes that were read. -/
abbrev Authored (read : List Node) : Node → Prop :=
  Traced read fun _ => False

variable {read : List Node} {emitted : Node → Prop}

/-- A wider notion of what is generated traces more. -/
lemma Traced.mono {emitted' : Node → Prop} (himp : ∀ node, emitted node → emitted' node)
    {node : Node} (h : Traced read emitted node) : Traced read emitted' node := by
  induction h with
  | declaration hread => exact .declaration hread
  | comment hread => exact .comment hread
  | rule hread _ ih => exact .rule hread ih
  | emitted h => exact .emitted (himp _ h)

/-- A property of all spans of the source, and of the emitted trees, is one of a traced tree. -/
lemma Traced.spanned {P : Option Span → Prop} (hread : ∀ node ∈ Node.everyNode read, P node.span)
    (hemitted : ∀ node, emitted node → node.Spanned P) {node : Node}
    (h : Traced read emitted node) : node.Spanned P := by
  induction h with
  | declaration hmem => exact hread _ hmem
  | comment hmem => exact hread _ hmem
  | rule hmem _ ih => exact ⟨hread _ hmem, Node.spannedAll_iff.2 ih⟩
  | emitted h => exact hemitted _ h

/-! ## The document -/

mutual

/-- A child of a node of the tree is a node of the tree. -/
lemma mem_visits_of_mem_children {selector : String} {children : List Node} {hasBlock : Bool}
    {span : Option Span} {child : Node} (hchild : child ∈ children) {node : Node} {depth : Nat}
    (h : .rule selector children hasBlock span ∈ (node.visits depth).map Prod.snd) :
    child ∈ (node.visits depth).map Prod.snd := by
  cases node with
  | rule selector' nodes hasBlock' span' =>
      rw [Node.visits, List.map_cons, List.mem_cons] at h ⊢
      right
      rcases h with hself | hbelow
      · obtain ⟨-, rfl, -, -⟩ := Node.rule.inj hself
        exact List.mem_map.2 ⟨(depth + 1, child),
          Node.mem_visitsAll.2 ⟨child, hchild, Node.mem_visits_self _ _⟩, rfl⟩
      · exact mem_visitsAll_of_mem_children hchild hbelow
  | declaration property value important span' => simp [Node.visits] at h
  | comment text span' => simp [Node.visits] at h

/-- The children of a node of a forest are nodes of the forest. -/
lemma mem_visitsAll_of_mem_children {selector : String} {children : List Node} {hasBlock : Bool}
    {span : Option Span} {child : Node} (hchild : child ∈ children) {nodes : List Node} {depth : Nat}
    (h : .rule selector children hasBlock span ∈ (Node.visitsAll depth nodes).map Prod.snd) :
    child ∈ (Node.visitsAll depth nodes).map Prod.snd := by
  cases nodes with
  | nil => cases h
  | cons node rest =>
      rw [Node.visitsAll, List.map_append, List.mem_append] at h ⊢
      exact h.imp (mem_visits_of_mem_children hchild) (mem_visitsAll_of_mem_children hchild)

end

mutual

/-- A node of the document is still authored after respelling. -/
lemma authored_modernize {node : Node} (h : node ∈ Node.everyNode read) :
    Authored read (modernize node) := by
  cases node with
  | rule selector nodes hasBlock span =>
      exact .rule h (authored_modernizeAll fun node hnode => mem_visitsAll_of_mem_children hnode h)
  | declaration property value important span => exact .declaration h
  | comment text span => exact .comment h

/-- Respelling keeps the nodes that were read. -/
lemma authored_modernizeAll {nodes : List Node} (h : ∀ node ∈ nodes, node ∈ Node.everyNode read) :
    ∀ node ∈ modernizeAll nodes, Authored read node := by
  cases nodes with
  | nil => nofun
  | cons node rest =>
      rw [List.forall_mem_cons] at h
      rw [modernizeAll, List.forall_mem_cons]
      exact ⟨authored_modernize h.1, authored_modernizeAll h.2⟩

end

/-- The whole document is. -/
lemma authored_document (nodes : List Node) :
    ∀ node ∈ modernizeAll nodes, Authored nodes node :=
  authored_modernizeAll fun node hnode =>
    List.mem_map.2 ⟨(0, node), Node.mem_visitsAll.2 ⟨node, hnode, Node.mem_visits_self _ _⟩, rfl⟩

mutual

/-- What a block leaves behind is authored. -/
lemma authored_unwrap {node : Node} (h : Authored read node) :
    ∀ part ∈ unwrap node, Authored read part := by
  cases node with
  | rule selector nodes hasBlock span =>
      cases h with
      | emitted h => exact h.elim
      | rule hread hnodes =>
          have hparts := authored_unwrapAll hnodes
          have hrule := Traced.rule hread hparts
          rw [unwrap]
          generalize (if isScreens _ then _ else _ : String) = respelled at hrule ⊢
          split_ifs
          · exact hparts
          · intro part hpart
            obtain rfl := List.mem_singleton.1 hpart
            exact hrule
  | declaration property value important span =>
      intro part hpart
      obtain rfl := List.mem_singleton.1 hpart
      exact h
  | comment text span =>
      intro part hpart
      obtain rfl := List.mem_singleton.1 hpart
      exact h

/-- Taking blocks apart keeps the nodes that were read. -/
lemma authored_unwrapAll {nodes : List Node} (h : ∀ node ∈ nodes, Authored read node) :
    ∀ part ∈ unwrapAll nodes, Authored read part := by
  cases nodes with
  | nil => nofun
  | cons node rest =>
      rw [List.forall_mem_cons] at h
      intro part hpart
      rcases List.mem_append.1 hpart with hpart | hpart
      · exact authored_unwrap h.1 part hpart
      · exact authored_unwrapAll h.2 part hpart

end

mutual

/-- If replacements are traced, what becomes of an authored tree is. -/
lemma traced_splice {p : Plan} (hplan : ∀ entry ∈ p, ∀ node ∈ entry.2, Traced read emitted node)
    (path : List Nat) {node : Node} (h : Authored read node) :
    ∀ part ∈ splice p path node, Traced read emitted part := by
  have hfound : ∀ new, p.lookup path = some new → ∀ part ∈ new, Traced read emitted part :=
    fun new hnew => hplan _ (mem_of_lookup hnew)
  have hkept : Traced read emitted node := h.mono nofun
  cases node with
  | rule selector nodes hasBlock span =>
      rw [splice]
      cases hlookup : p.lookup path with
      | some new => exact hfound new hlookup
      | none =>
          intro part hpart
          obtain rfl := List.mem_singleton.1 hpart
          cases h with
          | emitted h => exact h.elim
          | rule hread hnodes => exact .rule hread (traced_spliceBelow hplan path 0 hnodes)
  | declaration property value important span =>
      rw [splice]
      cases hlookup : p.lookup path with
      | some new => exact hfound new hlookup
      | none =>
          intro part hpart
          obtain rfl := List.mem_singleton.1 hpart
          exact hkept
  | comment text span =>
      rw [splice]
      cases hlookup : p.lookup path with
      | some new => exact hfound new hlookup
      | none =>
          intro part hpart
          obtain rfl := List.mem_singleton.1 hpart
          exact hkept

/-- Carrying out a plan puts what was planned among the nodes that were read. -/
lemma traced_spliceBelow {p : Plan}
    (hplan : ∀ entry ∈ p, ∀ node ∈ entry.2, Traced read emitted node) (path : List Nat)
    (index : Nat) {nodes : List Node} (h : ∀ node ∈ nodes, Authored read node) :
    ∀ part ∈ spliceBelow p path index nodes, Traced read emitted part := by
  cases nodes with
  | nil => nofun
  | cons node rest =>
      rw [List.forall_mem_cons] at h
      intro part hpart
      rcases List.mem_append.1 hpart with hpart | hpart
      · exact traced_splice hplan (path ++ [index]) h.1 part hpart
      · exact traced_spliceBelow hplan path (index + 1) h.2 part hpart

end

/-! ## The directives -/

/-- A directive has the span of its node. -/
lemma span_of_directive? {node : Node} {e : Layer × Option Span} (h : directive? node = some e) :
    e.2 = node.span := by
  cases node with
  | rule selector nodes hasBlock span =>
      obtain ⟨layer, -, rfl⟩ := Option.map_eq_some_iff.1 h
      rfl
  | declaration property value important span => cases h
  | comment text span => cases h

/-- Respelled or not, the directives of a document have spans that were read. -/
lemma span_of_mem_directives {nodes : List Node} {P : Option Span → Prop}
    (h : ∀ node ∈ Node.everyNode nodes, P node.span) :
    ∀ e ∈ directives (modernizeAll nodes), P e.2 := by
  intro e he
  rw [directives_modernizeAll] at he
  obtain ⟨visit, hvisit, hdirective⟩ := List.mem_filterMap.1 he
  rw [span_of_directive? hdirective]
  exact h visit.2 (List.mem_map_of_mem hvisit)

section
variable {document : List Node}

/-- The directive chosen for a layer is one of the document. -/
lemma mem_directives_of_get? {layer : Layer} {site : Site}
    (h : (Sites.find (withoutBlocks document)).get? layer = some site) :
    (layer, site.span) ∈ directives document := by
  have hsite := List.mem_map_of_mem (f := fun e => (e.1, e.2.span)) (mem_of_get? h)
  rw [Sites.find, sitesBelow_directives] at hsite
  exact mem_directives_of_withoutBlocks hsite

lemma mem_directives_of_span? {layer : Layer} {s : Span}
    (h : (Sites.find (withoutBlocks document)).span? layer = some s) :
    (layer, some s) ∈ directives document := by
  obtain ⟨site, hsite, hspan⟩ := Option.bind_eq_some_iff.1 h
  rw [← hspan]
  exact mem_directives_of_get? hsite

/-- The place a fragment is emitted for is the span of a directive. -/
lemma exists_mem_directives_of_target? {f : Fragment} {s : Span}
    (h : target? (Sites.find (withoutBlocks document)) f = some s) :
    ∃ layer, (layer, some s) ∈ directives document := by
  rw [target?] at h
  split at h
  · exact ⟨_, mem_directives_of_span? h⟩
  · exact ⟨_, mem_directives_of_span? h⟩
  · exact ⟨_, mem_directives_of_span? h⟩
  · exact ⟨_, mem_directives_of_span? h⟩
  · split_ifs at h
    · exact ⟨_, mem_directives_of_span? h⟩
    · obtain ⟨origin, -, hspan⟩ := Option.bind_eq_some_iff.1 h
      exact ⟨origin, mem_directives_of_span? hspan⟩

end

/-! ## The plan -/

section
variable {made : Fragment → Prop} {sites : Sites}

/-- A generated node gets the span of the directive it is for. -/
lemma emitted_backfill {f : Fragment} (hmade : made f) (hf : f.Unplaced) {s : Span}
    (htarget : target? sites f = some s) : Emitted made sites (f.node.backfill s) :=
  ⟨f, s, hmade, htarget, rfl, hf.spans.backfill s⟩

lemma emitted_of_mem_emit {fragments : List Fragment} {s : Span}
    (hfragments : ∀ f ∈ fragments, made f ∧ f.Unplaced ∧ target? sites f = some s) :
    ∀ node ∈ emit (some s) fragments, Emitted made sites node := by
  intro node hnode
  obtain ⟨f, hf, rfl⟩ := List.mem_map.1 hnode
  obtain ⟨hmade, hunplaced, htarget⟩ := hfragments f hf
  exact emitted_backfill hmade hunplaced htarget

end

section
variable {made : Fragment → Prop} {document : List Node} {sheet : Sheet}
  (hspans : ∀ e ∈ directives document, e.2.isSome = true)
  (hmade : ∀ f ∈ sheet.fragments, made f ∧ f.Unplaced)
include hspans

/-- A layer that is declared has a span. -/
lemma exists_span?_of_get? {layer : Layer} {site : Site}
    (h : (Sites.find (withoutBlocks document)).get? layer = some site) :
    ∃ s, site.span = some s ∧ (Sites.find (withoutBlocks document)).span? layer = some s := by
  obtain ⟨s, hs⟩ := Option.isSome_iff_exists.1 (hspans _ (mem_directives_of_get? h))
  exact ⟨s, hs, by rw [Sites.span?, h]; exact hs⟩

include hmade

/-- What replaces the directive of a layer is generated for it or was in its blocks. -/
lemma traced_layerPlan (layer : Layer) (hlayer : layer ≠ .defaults ∧ layer ≠ .variants)
    (hread : ∀ node ∈ document, Authored read node) :
    ∀ entry ∈ layerPlan document sheet (Sites.find (withoutBlocks document)) layer,
      ∀ node ∈ entry.2,
        Traced read (Emitted made (Sites.find (withoutBlocks document))) node := by
  set sites := Sites.find (withoutBlocks document) with hsites
  cases hget : sites.get? layer with
  | none => simp [layerPlan, hget]
  | some site =>
      obtain ⟨s, hspan, hown⟩ := exists_span?_of_get? hspans hget
      have htarget : ∀ bucket f, f ∈ sheet.bucket bucket →
          (bucket = layer ∨ layer = .base ∧ bucket = .defaults) →
          made f ∧ f.Unplaced ∧ target? sites f = some s := by
        intro bucket f hf hbucket
        obtain ⟨hf, hfl⟩ := List.mem_filter.1 hf
        refine ⟨(hmade f hf).1, (hmade f hf).2, ?_⟩
        rw [target?, of_decide_eq_true hfl]
        rcases hbucket with rfl | ⟨rfl, rfl⟩
        · cases bucket with
          | defaults => exact absurd rfl hlayer.1
          | variants => exact absurd rfl hlayer.2
          | base => exact hown
          | components => exact hown
          | utilities => exact hown
        · exact hown
      intro entry hentry node hnode
      rw [layerPlan, hget] at hentry
      obtain rfl := List.mem_singleton.1 hentry
      rcases List.mem_append.1 hnode with hnode | hnode
      · rw [hspan] at hnode
        rcases List.mem_append.1 hnode with hnode | hnode
        · split_ifs at hnode with hbase
          · exact .emitted (emitted_of_mem_emit
              (fun f hf => htarget .defaults f hf (Or.inr ⟨hbase, rfl⟩)) node hnode)
          · cases hnode
        · exact .emitted (emitted_of_mem_emit (fun f hf => htarget layer f hf (Or.inl rfl)) node hnode)
      · obtain ⟨block, hblock, hnode⟩ := List.mem_flatMap.1 hnode
        exact (authored_unwrap (hread block (List.mem_of_mem_filter hblock)) node hnode).mono nofun

/-- What replaces the directive for variants is generated. -/
lemma traced_variantPlan :
    ∀ entry ∈ variantPlan sheet (Sites.find (withoutBlocks document)), ∀ node ∈ entry.2,
      Traced read (Emitted made (Sites.find (withoutBlocks document))) node := by
  set sites := Sites.find (withoutBlocks document) with hsites
  cases hget : sites.get? .variants with
  | none => simp [variantPlan, hget]
  | some site =>
      obtain ⟨s, hspan, hown⟩ := exists_span?_of_get? hspans hget
      intro entry hentry node hnode
      rw [variantPlan, hget] at hentry
      obtain rfl := List.mem_singleton.1 hentry
      rw [hspan] at hnode
      refine .emitted (emitted_of_mem_emit (fun f hf => ?_) node hnode)
      obtain ⟨hf, hfl⟩ := List.mem_filter.1 (List.mem_of_mem_filter hf)
      refine ⟨(hmade f hf).1, (hmade f hf).2, ?_⟩
      rw [target?, of_decide_eq_true hfl]
      exact (if_pos (by rw [Sites.has, hget]; rfl)).trans hown

/-- Without a directive for variants, what a variant made follows the layer that it was made from: it
only belongs into the document if that layer is declared. -/
lemma traced_trailing :
    ∀ node ∈ trailing sheet (Sites.find (withoutBlocks document)),
      Traced read (Emitted made (Sites.find (withoutBlocks document))) node := by
  set sites := Sites.find (withoutBlocks document) with hsites
  rw [trailing]
  split_ifs with hhas
  · exact List.forall_mem_nil _
  · intro node hnode
    obtain ⟨f, hf, rfl⟩ := List.mem_map.1 hnode
    obtain ⟨hbucket, hqualifies⟩ := List.mem_filter.1 hf
    obtain ⟨hf, hfl⟩ := List.mem_filter.1 hbucket
    have hlayer : f.layer = .variants := of_decide_eq_true hfl
    have horigin : ∃ origin, f.origin = some origin ∧ sites.has origin = true := by
      rw [qualifies] at hqualifies
      rcases (hmade f hf).2.origin hlayer with h | h
      · exact ⟨_, h, by rwa [h] at hqualifies⟩
      · exact ⟨_, h, by rwa [h] at hqualifies⟩
    obtain ⟨origin, horigin, hdeclared⟩ := horigin
    obtain ⟨site, hget⟩ := Option.isSome_iff_exists.1 hdeclared
    obtain ⟨s, -, hown⟩ := exists_span?_of_get? hspans hget
    have hplace : f.origin.bind sites.span? = some s := by
      rw [horigin]
      exact hown
    rw [hplace]
    refine .emitted (emitted_backfill (hmade f hf).1 (hmade f hf).2 ?_)
    rw [target?, hlayer]
    exact (if_neg hhas).trans hplace

/-- Merging keeps what was read and adds what was emitted. -/
lemma traced_merge (hread : ∀ node ∈ document, Authored read node) :
    ∀ node ∈ merge document sheet,
      Traced read (Emitted made (Sites.find (withoutBlocks document))) node := by
  rw [merge]
  split_ifs
  · exact fun node hnode => (hread node hnode).mono nofun
  · have hrest : ∀ node ∈ withoutBlocks document, Authored read node := by
      intro node hnode
      obtain ⟨outer, houter, hnode⟩ := List.mem_flatMap.1 hnode
      exact authored_unwrap (hread outer (List.mem_of_mem_filter houter)) node hnode
    have hplan : ∀ entry ∈ plan document sheet (Sites.find (withoutBlocks document)),
        ∀ node ∈ entry.2,
          Traced read (Emitted made (Sites.find (withoutBlocks document))) node := by
      have hlayer := fun layer hlayer => traced_layerPlan hspans hmade layer hlayer hread
      intro entry hentry
      rw [plan, List.mem_append, List.mem_append, List.mem_append] at hentry
      rcases hentry with ((hentry | hentry) | hentry) | hentry
      · exact hlayer .base (by decide) entry hentry
      · exact hlayer .components (by decide) entry hentry
      · exact hlayer .utilities (by decide) entry hentry
      · exact traced_variantPlan hspans hmade entry hentry
    intro node hnode
    rcases List.mem_append.1 hnode with hnode | hnode
    · exact traced_spliceBelow hplan [] 0 hrest node hnode
    · exact traced_trailing hspans hmade node hnode

end

end Directive

/-! ## Builds -/

/-- The rules of the pipeline are those of settings. -/
def Pipeline.Configured (p : Pipeline) : Prop :=
  ∃ settings book, RuleBook.ofSettings settings = .ok book ∧ p.resolve = book.resolve

/-- The fragment is an answer of one of the pipelines. -/
def Fragment.AnsweredBy (pipelines : List Pipeline) (f : Fragment) : Prop :=
  ∃ p ∈ pipelines, ∃ candidate, f ∈ p.resolve candidate

/-- Rules of configured pipelines point at no source. -/
lemma Fragment.AnsweredBy.unplaced {pipelines : List Pipeline}
    (h : ∀ p ∈ pipelines, p.Configured) {f : Fragment} (hf : f.AnsweredBy pipelines) :
    f.Unplaced := by
  obtain ⟨p, hp, candidate, hf⟩ := hf
  obtain ⟨settings, book, hbook, hresolve⟩ := h p hp
  rw [hresolve] at hf
  exact RuleBook.resolve_unplaced hbook candidate f hf

open Directive in
/-- **Every node of a build points at the source.**  Whatever a session was used for before, as long
as the rules came from settings: each node of the stylesheet built, at any depth, has a span of the
source file on character boundaries.  It was read with this span, or it is part of a generated
fragment, all of which has the span of the directive that the fragment was emitted for. -/
theorem compile_lineage (files : Workspace) {start : BuildState}
    (hstart : start.session.rules = .empty) (before : List Action) {p : Pipeline}
    (hconfigured : ∀ q ∈ p :: before.filterMap Action.pipeline?, q.Configured) (lib : Library)
    (file : Nat) {source : SourceText} (hsource : lib.get? file = some source)
    (hsize : source.content.utf8ByteSize < Span.offsetBound) (sink : Sink) {result : List Node}
    (hbuilt : (compile (Action.performAll files start before).1 lib p file
      ⟨(Action.performAll files start before).2.session, sink⟩).1 = .ok result) :
    ∃ nodes, readStylesheet file source.content = .ok nodes ∧
      (∀ visit ∈ Node.visitsAll 0 result, Located file source.content.toList visit.2.span) ∧
      ∀ node ∈ result, Traced nodes
        (Emitted (Fragment.AnsweredBy (p :: before.filterMap Action.pipeline?))
          (Sites.find (withoutBlocks (modernizeAll nodes)))) node := by
  set made := Fragment.AnsweredBy (p :: before.filterMap Action.pipeline?) with hmade
  have hholds : (Action.performAll files start before).2.session.rules.Holds made := by
    refine holds_performAll files ?_ before fun q hq c f hf => ⟨q, by simp [hq], c, hf⟩
    rw [hstart]
    exact RuleCache.holds_empty made
  obtain ⟨nodes, hread, sheet, hsheet, rfl⟩ :=
    eq_merge_of_compile (fun c f hf => ⟨p, by simp, c, hf⟩) hholds hsource hbuilt
  have hlocated : ∀ node ∈ Node.everyNode nodes, Located file source.content.toList node.span := by
    intro node hnode
    obtain ⟨visit, hvisit, rfl⟩ := List.mem_map.1 hnode
    exact (located_of_readStylesheet hsize hread).visitsAll 0 visit hvisit
  have hdirectives := span_of_mem_directives hlocated
  have htraced : ∀ node ∈ merge (modernizeAll nodes) sheet, Traced nodes
      (Emitted made (Sites.find (withoutBlocks (modernizeAll nodes)))) node := by
    refine traced_merge (fun e he => ?_)
      (fun f hf => ⟨hsheet f hf, (hsheet f hf).unplaced hconfigured⟩) (authored_document nodes)
    obtain ⟨s, hs, -⟩ := hdirectives e he
    rw [hs]
    rfl
  refine ⟨nodes, hread, ?_, htraced⟩
  refine Node.SpannedAll.visitsAll (Node.spannedAll_iff.2 fun node hnode => ?_) 0
  refine (htraced node hnode).spanned hlocated ?_
  rintro node ⟨f, s, -, htarget, rfl, hspans⟩
  obtain ⟨layer, hlayer⟩ := exists_mem_directives_of_target? htarget
  exact hspans.mono fun span hspan => hspan ▸ hdirectives _ hlayer

/-! ### A document built twice -/

namespace Rebuilt

def source : String := "@tailwind base;@tailwind utilities;.a\x7bx:y\x7d"

def lib : Library := (Library.empty.add "input.css" source).1

def settings : Settings :=
  { utilities := ⟨[("p-4", "p:1")]⟩
    defaults := ⟨[("--r", "0")]⟩
    variants := ⟨[("on", "&:on")]⟩ }

lemma ofSettings_isSome : (RuleBook.ofSettings settings).toOption.isSome = true := by
  decide +kernel

def book : RuleBook := (RuleBook.ofSettings settings).toOption.get ofSettings_isSome

def pipeline : Pipeline :=
  { resolve := book.resolve
    handlers := .builtin
    content := [.inline "p-4 on:p-4" "html"]
    batchSize := 1 }

lemma configured : pipeline.Configured := by
  have hsome := ofSettings_isSome
  cases hbook : RuleBook.ofSettings settings with
  | error e => simp [hbook, Except.toOption] at hsome
  | ok found => exact ⟨settings, found, hbook, by simp [pipeline, book, hbook, Except.toOption]⟩

/-- What the session is after the first build. -/
def again : BuildState :=
  (Action.performAll ⟨[], []⟩ ⟨.start 1, .empty⟩ [.build lib pipeline 0]).2

/-- Four rules with one declaration each: defaults, utility, authored rule and variant. -/
def spans : List (Option Span) :=
  [some ⟨0, 0, 15⟩, some ⟨0, 0, 15⟩, some ⟨0, 15, 35⟩, some ⟨0, 15, 35⟩,
    some ⟨0, 35, 42⟩, some ⟨0, 38, 41⟩, some ⟨0, 15, 35⟩, some ⟨0, 15, 35⟩]

end Rebuilt

open Rebuilt in
/-- The second build takes its fragments from the first.  The document has no directive for
variants, so the rule made by one has the span of the directive for utilities. -/
theorem compile_lineage_rebuilt : ∃ result,
    (compile ⟨[], []⟩ lib pipeline 0 ⟨again.session, .empty⟩).1 = .ok result ∧
      (Node.visitsAll 0 result).map (fun visit => visit.2.span) = spans ∧
      ∃ nodes, readStylesheet 0 source = .ok nodes ∧
        (∀ visit ∈ Node.visitsAll 0 result, Located 0 source.toList visit.2.span) ∧
        ∀ node ∈ result, Directive.Traced nodes
          (Directive.Emitted (Fragment.AnsweredBy [pipeline, pipeline])
            (Directive.Sites.find (Directive.withoutBlocks (Directive.modernizeAll nodes)))) node := by
  have hspans : (compile ⟨[], []⟩ lib pipeline 0 ⟨again.session, .empty⟩).1.toOption.map
      (fun result => (Node.visitsAll 0 result).map fun visit => visit.2.span) = some spans := by
    decide +kernel
  cases hbuilt : (compile ⟨[], []⟩ lib pipeline 0 ⟨again.session, .empty⟩).1 with
  | error e => simp [hbuilt, Except.toOption] at hspans
  | ok result =>
      rw [hbuilt] at hspans
      refine ⟨result, rfl, Option.some.inj hspans, ?_⟩
      refine @compile_lineage ⟨[], []⟩ ⟨.start 1, .empty⟩ rfl [.build lib pipeline 0] pipeline ?_ lib
        0 (.make "input.css" source) rfl (by decide +kernel) .empty result hbuilt
      intro q hq
      obtain rfl : q = pipeline := by simpa [Action.pipeline?] using hq
      exact configured

end UtilityCss
