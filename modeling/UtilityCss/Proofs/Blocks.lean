import UtilityCss.Proofs.Authored
import UtilityCss.Proofs.Slices

/-!
# Blocks, what they add, and generated nodes

A merged document is put together from three parts, each of which is said here by itself.

* **The document without blocks** — no block is left in it at any depth (`topBlock?_withoutBlocks`), and
  one that has none is left as it is (`withoutBlocks_eq_self_iff`).
* **What blocks add** — a block at top level leaves the document and its contents are authored for its
  layer (`withoutBlocks_cons`, `authored_cons`).  Nothing is lost or doubled by that (`unwrapAll_perm`).
* **What is generated** — apart from spans it is what the fragments hold (`clearSpansAll_emit`), and the
  span of the directive goes to every node that has none, at any depth (`spans_emit`).
-/

namespace UtilityCss.Directive

/-! ## The document without blocks -/

/-- A block at top level is left out with all it contains; in other trees blocks are taken apart. -/
lemma withoutBlocks_cons (node : Node) (rest : List Node) :
    withoutBlocks (node :: rest) =
      (if (topBlock? node).isNone then unwrap node else []) ++ withoutBlocks rest := by
  rw [withoutBlocks, withoutBlocks, List.filter_cons]
  split_ifs
  · rw [List.flatMap_cons]
  · rw [List.nil_append]

mutual

lemma topBlock?_unwrap (depth : Nat) (node : Node) :
    ∀ visit ∈ Node.visitsAll depth (unwrap node), topBlock? visit.2 = none := by
  cases node with
  | rule selector nodes hasBlock span =>
      rw [unwrap]
      split_ifs with hblock
      · exact topBlock?_unwrapAll depth nodes
      · rw [Node.visitsAll, Node.visits, Node.visitsAll, List.append_nil, List.forall_mem_cons]
        exact ⟨by simpa [topBlock?] using hblock, topBlock?_unwrapAll (depth + 1) nodes⟩
  | declaration property value important span => simp [unwrap, Node.visitsAll, Node.visits, topBlock?]
  | comment text span => simp [unwrap, Node.visitsAll, Node.visits, topBlock?]

/-- A block inside a block is taken apart with it. -/
lemma topBlock?_unwrapAll (depth : Nat) (nodes : List Node) :
    ∀ visit ∈ Node.visitsAll depth (unwrapAll nodes), topBlock? visit.2 = none := by
  cases nodes with
  | nil => exact nofun
  | cons node rest =>
      rw [unwrapAll, Node.visitsAll_append]
      exact List.forall_mem_append.2 ⟨topBlock?_unwrap depth node, topBlock?_unwrapAll depth rest⟩

end

/-- No block is left, at any depth. -/
theorem topBlock?_withoutBlocks (depth : Nat) (nodes : List Node) :
    ∀ visit ∈ Node.visitsAll depth (withoutBlocks nodes), topBlock? visit.2 = none := by
  induction nodes with
  | nil => exact nofun
  | cons node rest ih =>
      rw [withoutBlocks_cons, Node.visitsAll_append]
      refine List.forall_mem_append.2 ⟨?_, ih⟩
      split_ifs
      · exact topBlock?_unwrap depth node
      · exact nofun

mutual

/-- A tree without blocks is left as it is. -/
lemma unwrap_eq_self {depth : Nat} {node : Node}
    (h : ∀ visit ∈ Node.visits depth node, topBlock? visit.2 = none) : unwrap node = [node] := by
  cases node with
  | rule selector nodes hasBlock span =>
      rw [Node.visits, List.forall_mem_cons] at h
      have hself : ¬ (blockLayer? selector).isSome = true := by
        simpa [topBlock?] using h.1
      rw [unwrap, if_neg hself, unwrapAll_eq_self h.2]
  | declaration property value important span => rfl
  | comment text span => rfl

/-- A forest without blocks is left as it is. -/
lemma unwrapAll_eq_self {depth : Nat} {nodes : List Node}
    (h : ∀ visit ∈ Node.visitsAll depth nodes, topBlock? visit.2 = none) :
    unwrapAll nodes = nodes := by
  cases nodes with
  | nil => rfl
  | cons node rest =>
      rw [Node.visitsAll, List.forall_mem_append] at h
      rw [unwrapAll, unwrap_eq_self h.1, unwrapAll_eq_self h.2, List.singleton_append]

end

/-- Taking blocks apart leaves a document as it is exactly if it has none. -/
theorem withoutBlocks_eq_self_iff {nodes : List Node} :
    withoutBlocks nodes = nodes ↔ ∀ visit ∈ Node.visitsAll 0 nodes, topBlock? visit.2 = none := by
  constructor
  · intro h
    rw [← h]
    exact topBlock?_withoutBlocks 0 nodes
  · intro h
    induction nodes with
    | nil => rfl
    | cons node rest ih =>
        rw [Node.visitsAll, List.forall_mem_append] at h
        have hnode : topBlock? node = none := by
          cases node with
          | rule selector nodes hasBlock span => exact h.1 _ List.mem_cons_self
          | declaration property value important span => rfl
          | comment text span => rfl
        rw [withoutBlocks_cons, hnode, Option.isNone_none, if_pos rfl, unwrap_eq_self h.1, ih h.2,
          List.singleton_append]

/-! ## What blocks add -/

/-- The contents of a block at top level are added to its layer, and nothing else is. -/
lemma authored_cons (node : Node) (rest : List Node) (layer : Layer) :
    authored (node :: rest) layer =
      (if topBlock? node = some layer then unwrap node else []) ++ authored rest layer := by
  rw [authored, authored, List.filter_cons]
  by_cases h : topBlock? node = some layer
  · rw [if_pos h, if_pos (decide_eq_true h), List.flatMap_cons]
  · rw [if_neg h, if_neg (by simpa using h), List.nil_append]

/-- Every tree of a document goes to one place, with its own blocks taken apart. -/
theorem unwrapAll_perm (nodes : List Node) :
    (unwrapAll nodes).Perm (withoutBlocks nodes ++
      (authored nodes .base ++ (authored nodes .components ++ authored nodes .utilities))) := by
  induction nodes with
  | nil => exact .refl _
  | cons node rest ih =>
      have hfront := ih.append_left (unwrap node)
      have hmove : ∀ a b, (unwrap node ++ (a ++ b)).Perm (a ++ (unwrap node ++ b)) :=
        fun _ _ => List.perm_append_comm_assoc _ _ _
      rw [unwrapAll, withoutBlocks_cons, authored_cons, authored_cons, authored_cons]
      refine hfront.trans ?_
      cases hblock : topBlock? node with
      | none => simp
      | some layer =>
          have hcore : ¬ (layer = .defaults ∨ layer = .variants) := by
            cases node with
            | rule selector nodes hasBlock span => exact blockLayer?_core hblock
            | declaration property value important span => cases hblock
            | comment text span => cases hblock
          cases layer with
          | defaults => exact absurd (Or.inl rfl) hcore
          | variants => exact absurd (Or.inr rfl) hcore
          | base => simpa using hmove _ _
          | components => simpa using (hmove _ _).trans ((hmove _ _).append_left _)
          | utilities =>
              simpa using (hmove _ _).trans
                (((hmove _ _).trans ((hmove _ _).append_left _)).append_left _)

/-! ## What is generated -/

mutual

lemma clearSpans_backfill (s : Span) (node : Node) : (node.backfill s).clearSpans = node.clearSpans := by
  cases node with
  | rule selector nodes hasBlock span =>
      rw [Node.backfill, Node.clearSpans, Node.clearSpans, clearSpansAll_backfillAll]
  | declaration property value important span => rfl
  | comment text span => rfl

/-- Spans that are filled in can be forgotten again. -/
lemma clearSpansAll_backfillAll (s : Span) (nodes : List Node) :
    Node.clearSpansAll (Node.backfillAll s nodes) = Node.clearSpansAll nodes := by
  cases nodes with
  | nil => rfl
  | cons node rest =>
      rw [Node.backfillAll, Node.clearSpansAll, Node.clearSpansAll, clearSpans_backfill,
        clearSpansAll_backfillAll]

end

/-- Apart from spans nothing is added to the fragments, taken from them or put in another order. -/
theorem clearSpansAll_emit (span : Option Span) (fragments : List Fragment) :
    Node.clearSpansAll (emit span fragments) = Node.clearSpansAll (fragments.map Fragment.node) := by
  cases span with
  | none => rfl
  | some s =>
      induction fragments with
      | nil => rfl
      | cons f rest ih =>
          rw [emit, List.map_cons, List.map_cons, Node.clearSpansAll, Node.clearSpansAll, ← emit, ih]
          rw [Node.backfill?, clearSpans_backfill]

mutual

/-- A node keeps its span, or gets the one that is filled in. -/
lemma spans_backfill (s : Span) (depth : Nat) (node : Node) :
    (Node.visits depth (node.backfill s)).map (fun visit => visit.2.span) =
      (Node.visits depth node).map fun visit => visit.2.span.or (some s) := by
  cases node with
  | rule selector nodes hasBlock span =>
      rw [Node.backfill, Node.visits, Node.visits, List.map_cons, List.map_cons, spans_backfillAll]
      rfl
  | declaration property value important span => rfl
  | comment text span => rfl

lemma spans_backfillAll (s : Span) (depth : Nat) (nodes : List Node) :
    (Node.visitsAll depth (Node.backfillAll s nodes)).map (fun visit => visit.2.span) =
      (Node.visitsAll depth nodes).map fun visit => visit.2.span.or (some s) := by
  cases nodes with
  | nil => rfl
  | cons node rest =>
      rw [Node.backfillAll, Node.visitsAll, Node.visitsAll, List.map_append, List.map_append,
        spans_backfill, spans_backfillAll]

end

/-- A node keeps the span it has, and gets that of the directive if it has none. -/
theorem spans_emit (s : Span) (depth : Nat) (fragments : List Fragment) :
    (Node.visitsAll depth (emit (some s) fragments)).map (fun visit => visit.2.span) =
      (Node.visitsAll depth (fragments.map Fragment.node)).map
        fun visit => visit.2.span.or (some s) := by
  induction fragments with
  | nil => rfl
  | cons f rest ih =>
      rw [emit, List.map_cons, List.map_cons, ← emit, Node.visitsAll, Node.visitsAll,
        List.map_append, List.map_append, ih, Node.backfill?, spans_backfill]

end UtilityCss.Directive
