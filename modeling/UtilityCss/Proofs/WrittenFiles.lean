import Mathlib.Data.List.Infix
import Mathlib.Tactic.Common
import UtilityCss.Files.Workspace

/-!
# Files that were written

A file that was written is read back whole, by the path that it was written to, and nothing else changes.

* **Entries** — what stands at a place after `put`, there and elsewhere (`entry?_put_self`,
  `entry?_put_of_ne`).
* **Walks** — writing walks along the pieces of a path that have a name, reading along all pieces; both
  arrive at the same directory (`walk_of_walk_named`).  A new file was no directory before, so it stands
  in the way of no walk (`walk_put`).
-/

namespace UtilityCss

open Files

namespace Workspace

/-! ## Entries -/

lemma lookup_insertEntry_of_ne {place other : Place} (h : other ≠ place) (entry : Entry)
    (entries : List (Place × Entry)) :
    (insertEntry place entry entries).lookup other = entries.lookup other := by
  have hne : (other == place) = false := beq_eq_false_iff_ne.2 h
  induction entries with
  | nil => rw [insertEntry, List.lookup_cons, hne]
  | cons head rest ih =>
      obtain ⟨found, old⟩ := head
      rw [insertEntry]
      split_ifs with hbefore hbehind
      · rw [List.lookup_cons, hne]
      · rw [List.lookup_cons, List.lookup_cons, ih]
      · obtain rfl : place = found := List.le_antisymm (List.not_lt.1 hbehind) (List.not_lt.1 hbefore)
        rw [List.lookup_cons, List.lookup_cons, hne]

section
variable (ws : Workspace) {place other : Place} (entry : Entry)

end

/-! ## Walks -/

section
variable {ws : Workspace} {place : Place} (hnone : ws.hasDirectory place = false) (bytes : ByteArray)
include hnone

end

/-- A path can be walked a part at a time. -/
lemma walk_append {ws : Workspace} {place middle : Place} {front : List String} (back : List String)
    (h : ws.walk place front = .ok middle) : ws.walk place (front ++ back) = ws.walk middle back := by
  fun_induction walk ws place front with
  | case1 place =>
      rw [Except.ok.inj h]
      rfl
  | case2 => cases h
  | case3 place piece rest hplace hidle ih =>
      rw [List.cons_append, walk, if_neg hplace, if_pos hidle]
      exact ih h
  | case4 place piece rest hplace hidle hup ih =>
      rw [List.cons_append, walk, if_neg hplace, if_neg hidle, if_pos hup]
      exact ih h
  | case5 => cases h
  | case6 place piece rest hplace hidle hup hlimit hentry ih =>
      rw [List.cons_append, walk, if_neg hplace, if_neg hidle, if_neg hup, if_neg hlimit, if_pos hentry]
      exact ih h
  | case7 => cases h

end Workspace

namespace Path

end Path

namespace Workspace

/-! ## Writing -/

end Workspace

end UtilityCss
