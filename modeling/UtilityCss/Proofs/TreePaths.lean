import Mathlib.Data.List.Lex
import UtilityCss.Proofs.Directives

/-!
# Paths into a document

A path of child indices leads from a forest to one of its nodes, and this is how a directive is
found again: by the path it was met at.

* **Following** — `Node.follow?` is the node at the end of a path.
* **Document order** — `spotsBelow` lists the nodes of a forest with their paths, parents in front of
  their children, just as `Node.visitsAll` lists them with their depths (`spotsBelow_map_snd`).  The list
  holds exactly what paths lead to (`mem_spots`), and its paths ascend (`pairwise_spots`).  So a node
  stands in front of another in document order exactly if its path is the smaller one, and
  `findSome?_spots_eq_some_iff` finds the first node of a kind as the one with the least path.
-/

namespace UtilityCss

namespace Node

/-- The node that a path leads to from a node. -/
def descend? : Node → List Nat → Option Node
  | node, [] => some node
  | .rule _ nodes _ _, index :: path => (nodes[index]?).bind fun child => child.descend? path
  | .declaration .., _ :: _ => none
  | .comment .., _ :: _ => none

/-- The node that a path leads to in a forest. -/
def follow? (nodes : List Node) : List Nat → Option Node
  | [] => none
  | index :: path => (nodes[index]?).bind fun node => node.descend? path

@[simp]
lemma descend?_nil (node : Node) : node.descend? [] = some node := by
  cases node <;> rfl

end Node

namespace Directive

/-! ## Document order -/

mutual

/-- The nodes of the tree at a path, with their paths, parents in front of their children. -/
def spotsAt (path : List Nat) : Node → List (List Nat × Node)
  | .rule selector nodes hasBlock span =>
    (path, .rule selector nodes hasBlock span) :: spotsBelow path 0 nodes
  | .declaration property value important span =>
    [(path, .declaration property value important span)]
  | .comment text span => [(path, .comment text span)]

/-- The nodes of the trees below a path, the first of which has the given index. -/
def spotsBelow (path : List Nat) (index : Nat) : List Node → List (List Nat × Node)
  | [] => []
  | node :: rest => spotsAt (path ++ [index]) node ++ spotsBelow path (index + 1) rest

end

/-- The nodes of a forest with their paths, in document order. -/
def spots (nodes : List Node) : List (List Nat × Node) := spotsBelow [] 0 nodes

mutual

/-- The spots of a tree are its nodes in pre-order. -/
lemma spotsAt_map_snd (path : List Nat) (depth : Nat) (node : Node) :
    (spotsAt path node).map Prod.snd = (node.visits depth).map Prod.snd := by
  cases node with
  | rule selector nodes hasBlock span =>
      rw [spotsAt, Node.visits, List.map_cons, List.map_cons,
        spotsBelow_map_snd path 0 (depth + 1) nodes]
  | declaration property value important span => rfl
  | comment text span => rfl

/-- Paths and depths are two ways to annotate the same list. -/
lemma spotsBelow_map_snd (path : List Nat) (index depth : Nat) (nodes : List Node) :
    (spotsBelow path index nodes).map Prod.snd = (Node.visitsAll depth nodes).map Prod.snd := by
  cases nodes with
  | nil => rfl
  | cons node rest =>
      rw [spotsBelow, Node.visitsAll, List.map_append, List.map_append,
        spotsAt_map_snd (path ++ [index]) depth node, spotsBelow_map_snd path (index + 1) depth rest]

end

/-- A path goes no further, or down to a child. -/
lemma exists_descend?_iff {path : List Nat} {node : Node} {spot : List Nat × Node} :
    (∃ r, spot.1 = path ++ r ∧ node.descend? r = some spot.2) ↔
      spot = (path, node) ∨
        ∃ i r, spot.1 = path ++ i :: r ∧ node.descend? (i :: r) = some spot.2 := by
  rw [Prod.ext_iff]
  constructor
  · rintro ⟨r, hpath, hnode⟩
    cases r with
    | nil => exact Or.inl ⟨by rw [hpath, List.append_nil], by simpa using hnode.symm⟩
    | cons i r => exact Or.inr ⟨i, r, hpath, hnode⟩
  · rintro (⟨hpath, hnode⟩ | ⟨i, r, hpath, hnode⟩)
    · exact ⟨[], by rw [hpath, List.append_nil], by rw [hnode, Node.descend?_nil]⟩
    · exact ⟨i :: r, hpath, hnode⟩

mutual

/-- A spot is a node with the path that leads to it. -/
lemma mem_spotsAt (path : List Nat) (node : Node) (spot : List Nat × Node) :
    spot ∈ spotsAt path node ↔ ∃ r, spot.1 = path ++ r ∧ node.descend? r = some spot.2 := by
  rw [exists_descend?_iff]
  cases node with
  | rule selector nodes hasBlock span =>
      rw [spotsAt, List.mem_cons, mem_spotsBelow path 0 nodes spot]
      simp only [Nat.zero_add]
      rfl
  | declaration property value important span => simp [spotsAt, Node.descend?]
  | comment text span => simp [spotsAt, Node.descend?]

/-- A spot below a path is a node with the index of its tree in its path. -/
lemma mem_spotsBelow (path : List Nat) (index : Nat) (nodes : List Node) (spot : List Nat × Node) :
    spot ∈ spotsBelow path index nodes
      ↔ ∃ i r, spot.1 = path ++ (index + i) :: r ∧ Node.follow? nodes (i :: r) = some spot.2 := by
  cases nodes with
  | nil => simp [spotsBelow, Node.follow?]
  | cons node rest =>
      rw [spotsBelow, List.mem_append, mem_spotsAt (path ++ [index]) node spot,
        mem_spotsBelow path (index + 1) rest spot]
      constructor
      · rintro (⟨r, hpath, hnode⟩ | ⟨i, r, hpath, hnode⟩)
        · exact ⟨0, r, by rw [hpath, List.append_assoc]; rfl, hnode⟩
        · exact ⟨i + 1, r, by rw [hpath]; congr 2; omega, hnode⟩
      · rintro ⟨i, r, hpath, hnode⟩
        cases i with
        | zero => exact Or.inl ⟨r, by rw [hpath, List.append_assoc]; rfl, hnode⟩
        | succ i => exact Or.inr ⟨i, r, by rw [hpath]; congr 2; omega, hnode⟩

end

/-- The list holds what paths lead to. -/
lemma mem_spots {nodes : List Node} {path : List Nat} {node : Node} :
    (path, node) ∈ spots nodes ↔ Node.follow? nodes path = some node := by
  rw [spots, mem_spotsBelow]
  constructor
  · rintro ⟨i, r, rfl, hnode⟩
    rwa [Nat.zero_add]
  · intro hnode
    cases path with
    | nil => cases hnode
    | cons i r => exact ⟨i, r, by simp, hnode⟩

mutual

lemma pairwise_spotsAt (path : List Nat) (node : Node) :
    (spotsAt path node).Pairwise fun a b => a.1 < b.1 := by
  cases node with
  | rule selector nodes hasBlock span =>
      rw [spotsAt, List.pairwise_cons]
      refine ⟨fun spot hspot => ?_, pairwise_spotsBelow path 0 nodes⟩
      obtain ⟨i, r, hpath, -⟩ := (mem_spotsBelow path 0 nodes spot).1 hspot
      have hbelow : path ++ [] < path ++ (0 + i) :: r :=
        List.append_left_lt (List.nil_lt_cons (0 + i) r)
      rwa [List.append_nil, ← hpath] at hbelow
  | declaration property value important span => exact List.pairwise_singleton _ _
  | comment text span => exact List.pairwise_singleton _ _

/-- Paths ascend in pre-order, so each leads to one node. -/
lemma pairwise_spotsBelow (path : List Nat) (index : Nat) (nodes : List Node) :
    (spotsBelow path index nodes).Pairwise fun a b => a.1 < b.1 := by
  cases nodes with
  | nil => exact .nil
  | cons node rest =>
      rw [spotsBelow, List.pairwise_append]
      refine ⟨pairwise_spotsAt (path ++ [index]) node, pairwise_spotsBelow path (index + 1) rest, ?_⟩
      intro a ha b hb
      obtain ⟨r, hra, -⟩ := (mem_spotsAt (path ++ [index]) node a).1 ha
      obtain ⟨i, s, hsb, -⟩ := (mem_spotsBelow path (index + 1) rest b).1 hb
      rw [hra, hsb, List.append_assoc]
      exact List.append_left_lt (List.cons_lt_cons_iff.2 (Or.inl (by omega)))

end

/-- In document order paths ascend. -/
lemma pairwise_spots (nodes : List Node) : (spots nodes).Pairwise fun a b => a.1 < b.1 :=
  pairwise_spotsBelow [] 0 nodes

section order
variable {front back : List (List Nat × Node)} {spot other : List Nat × Node}
  (hsorted : (front ++ spot :: back).Pairwise fun a b => a.1 < b.1)
  (hother : other ∈ front ++ spot :: back)
include hsorted hother

/-- A spot with a smaller path stands in front. -/
lemma mem_front_of_lt (hlt : other.1 < spot.1) : other ∈ front := by
  obtain ⟨-, hback, -⟩ := List.pairwise_append.1 hsorted
  rcases List.mem_append.1 hother with hfront | hspot
  · exact hfront
  · rcases List.mem_cons.1 hspot with rfl | hlater
    · exact absurd hlt (List.lt_irrefl _)
    · exact absurd hlt (List.lt_asymm (List.rel_of_pairwise_cons hback hlater))

lemma mem_back_of_gt (hgt : spot.1 < other.1) : other ∈ back := by
  obtain ⟨-, -, hfront⟩ := List.pairwise_append.1 hsorted
  rcases List.mem_append.1 hother with hearlier | hspot
  · exact absurd hgt (List.lt_asymm (hfront other hearlier spot List.mem_cons_self))
  · rcases List.mem_cons.1 hspot with rfl | hback
    · exact absurd hgt (List.lt_irrefl _)
    · exact hback

end order

/-! ## The first node of a kind -/

section first
variable {β : Type} (f : Node → Option β) (nodes : List Node)

/-- What is found first is found at the least path. -/
lemma findSome?_spots_eq_some_iff {b : β} :
    ((spots nodes).findSome? fun spot => f spot.2) = some b ↔
      ∃ path node, Node.follow? nodes path = some node ∧ f node = some b ∧
        ∀ path' < path, ∀ node', Node.follow? nodes path' = some node' → f node' = none := by
  rw [List.findSome?_eq_some_iff]
  constructor
  · rintro ⟨front, ⟨path, node⟩, back, hsplit, hnode, hfront⟩
    refine ⟨path, node, mem_spots.1 (by simp [hsplit]), hnode, ?_⟩
    intro path' hlt node' hfollow
    have hmem := mem_spots.2 hfollow
    rw [hsplit] at hmem
    exact hfront _ (mem_front_of_lt (hsplit ▸ pairwise_spots nodes) hmem hlt)
  · rintro ⟨path, node, hfollow, hnode, hleast⟩
    obtain ⟨front, back, hsplit⟩ := List.append_of_mem (mem_spots.2 hfollow)
    refine ⟨front, (path, node), back, hsplit, hnode, ?_⟩
    rintro ⟨path', node'⟩ hfront
    have hsorted := List.pairwise_append.1 (hsplit ▸ pairwise_spots nodes)
    have hmem : (path', node') ∈ spots nodes := by simp [hsplit, hfront]
    exact hleast path' (hsorted.2.2 _ hfront _ List.mem_cons_self) node' (mem_spots.1 hmem)

/-- Nothing is found exactly if nothing is there at any path. -/
lemma findSome?_spots_eq_none_iff :
    ((spots nodes).findSome? fun spot => f spot.2) = none ↔
      ∀ path node, Node.follow? nodes path = some node → f node = none := by
  rw [List.findSome?_eq_none_iff]
  constructor
  · intro hnone path node hfollow
    exact hnone _ (mem_spots.2 hfollow)
  · rintro hnone ⟨path, node⟩ hmem
    exact hnone path node (mem_spots.1 hmem)

end first

end Directive

end UtilityCss
