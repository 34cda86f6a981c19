import Mathlib.Data.List.Sort
import Mathlib.Data.String.Basic
import Mathlib.Tactic.Common
import UtilityCss.Table

/-!
# Ascending lists of names

Sets of candidates are kept as lists in ascending order, so two of them are equal as soon as they
have the same members (`Ascending.ext`).  Everything else follows from two facts about
`Names.insert`: what its members are, and that it keeps the order.

* **Sets** — membership in `insert`, `insertAll` and `sorted`, and that all three are ascending.
* **Bytes** — `bytes_lt_iff`: the order of texts by code point is the order of their bytes in UTF-8.
* **Graphs** — a table whose entries are the graph of a function over an ascending list of keys
  stays one when an entry of that function is added (`insertEntry_graph`).  This is how a cache
  that only ever stores answers of one function is described.
-/

namespace UtilityCss

namespace Names

/-- In ascending order, and so without repetitions. -/
def Ascending (names : List String) : Prop := names.Pairwise (· < ·)

lemma ascending_nil : Ascending [] := List.Pairwise.nil

/-- An ascending list is determined by its members. -/
theorem Ascending.ext {a b : List String} (ha : Ascending a) (hb : Ascending b)
    (h : ∀ x, x ∈ a ↔ x ∈ b) : a = b :=
  List.Pairwise.eq_of_mem_iff ha hb h

lemma Ascending.nodup {a : List String} (ha : Ascending a) : a.Nodup :=
  List.Pairwise.imp (fun h => ne_of_lt h) ha

/-- Of two ascending lists one of which contains the other, the larger one is longer unless they
    are equal. -/
lemma Ascending.eq_of_subset_of_length {a b : List String} (ha : Ascending a) (hb : Ascending b)
    (hsub : a ⊆ b) (hlen : b.length ≤ a.length) : a = b := by
  have hperm : a.Perm b := (List.subperm_of_subset ha.nodup hsub).perm_of_length_le hlen
  exact ha.ext hb fun x => hperm.mem_iff

/-- Inserting adds the name and nothing else. -/
@[simp]
lemma mem_insert {x name : String} {names : List String} :
    x ∈ insert name names ↔ x = name ∨ x ∈ names := by
  induction names with
  | nil => simp [insert]
  | cons other rest ih =>
      rw [insert]
      split_ifs with h₁ h₂
      · simp
      · simp only [List.mem_cons, ih]
        exact or_left_comm
      · have heq : name = other := le_antisymm (not_lt.mp h₂) (not_lt.mp h₁)
        simp [heq]

lemma Ascending.insert {names : List String} (h : Ascending names) (name : String) :
    Ascending (insert name names) := by
  induction names with
  | nil => exact List.pairwise_singleton _ _
  | cons other rest ih =>
      obtain ⟨hhead, htail⟩ := List.pairwise_cons.mp h
      rw [Names.insert]
      split_ifs with h₁ h₂
      · refine List.pairwise_cons.mpr ⟨?_, h⟩
        intro x hx
        rcases List.mem_cons.mp hx with rfl | hx
        · exact h₁
        · exact lt_trans h₁ (hhead x hx)
      · refine List.pairwise_cons.mpr ⟨?_, ih htail⟩
        intro x hx
        rcases mem_insert.mp hx with rfl | hx
        · exact h₂
        · exact hhead x hx
      · exact h

/-- What is in the list afterwards was inserted or was there. -/
@[simp]
lemma mem_insertAll {x : String} {names set : List String} :
    x ∈ insertAll names set ↔ x ∈ names ∨ x ∈ set := by
  induction names generalizing set with
  | nil => simp [insertAll]
  | cons name rest ih =>
      rw [insertAll, List.foldl_cons, ← insertAll, ih, mem_insert, List.mem_cons]
      tauto

lemma Ascending.insertAll {set : List String} (h : Ascending set) (names : List String) :
    Ascending (insertAll names set) := by
  induction names generalizing set with
  | nil => exact h
  | cons name rest ih => exact ih (h.insert name)

/-- Sorting neither adds nor loses a name. -/
@[simp]
lemma mem_sorted {x : String} {names : List String} : x ∈ sorted names ↔ x ∈ names := by
  have h : sorted names = insertAll names [] := rfl
  simp [h]

lemma ascending_sorted (names : List String) : Ascending (sorted names) :=
  ascending_nil.insertAll names

/-- Sorting forgets order and repetition. -/
lemma sorted_eq_of_mem_iff {a b : List String} (ha : Ascending a) (h : ∀ x, x ∈ a ↔ x ∈ b) :
    a = sorted b :=
  ha.ext (ascending_sorted b) fun x => by rw [mem_sorted, h]

/-- Names with the same members are added alike, in whatever order they are listed. -/
lemma insertAll_congr {a b set : List String} (hset : Ascending set) (h : ∀ x, x ∈ a ↔ x ∈ b) :
    insertAll a set = insertAll b set := by
  refine (hset.insertAll a).ext (hset.insertAll b) fun x => ?_
  rw [mem_insertAll, mem_insertAll, h]

/-- Names can be sorted a part at a time. -/
lemma sorted_append (a b : List String) : sorted (a ++ b) = insertAll b (sorted a) :=
  List.foldl_append

end Names

namespace Text

/-! ## Order by bytes -/

/-- The bytes of a text in UTF-8. -/
def bytes (s : String) : List UInt8 :=
  s.toUTF8.data.toList

/-- The bytes of a text are those of its characters in turn. -/
lemma bytes_eq_flatMap (s : String) : bytes s = s.toList.flatMap String.utf8EncodeChar := by
  have h : s.toUTF8 = s.toList.utf8Encode := by
    rw [String.toUTF8_eq_toByteArray, ← String.toByteArray_ofList, String.ofList_toList]
  rw [bytes, h, List.utf8Encode, List.data_toByteArray]

lemma char_toNat_lt (c : Char) : c.val.toNat < 0x110000 := by
  rcases c.valid with h | h
  · omega
  · exact h.2

/-- The bytes of a lesser character are less at the first place where they differ, and that place
is within both: no character's bytes begin those of another. -/
lemma utf8EncodeChar_append_lt {c d : Char} (h : c < d) (x y : List UInt8) :
    String.utf8EncodeChar c ++ x < String.utf8EncodeChar d ++ y := by
  have hval : c.val.toNat < d.val.toNat := h
  have hc := char_toNat_lt c
  have hd := char_toNat_lt d
  unfold String.utf8EncodeChar
  simp only
  split_ifs <;>
    simp (disch := omega) only [List.cons_append, List.nil_append, List.cons_lt_cons_iff,
      UInt8.lt_iff_toNat_lt, UInt8.toNat_ofNat', ← UInt8.toNat_inj, Nat.mod_eq_of_lt (b := 256),
      Nat.mod_eq_of_lt (b := 8)] <;>
    omega

/-- Encoding keeps the order of texts. -/
lemma flatMap_utf8EncodeChar_lt {a b : List Char} (h : a < b) :
    a.flatMap String.utf8EncodeChar < b.flatMap String.utf8EncodeChar := by
  induction a generalizing b with
  | nil =>
      cases b with
      | nil => simp at h
      | cons d b =>
          have hne : String.utf8EncodeChar d ≠ [] := String.utf8EncodeChar_ne_nil
          cases hd : String.utf8EncodeChar d with
          | nil => exact absurd hd hne
          | cons x xs => simp [hd]
  | cons c a ih =>
      cases b with
      | nil => simp at h
      | cons d b =>
          rw [List.flatMap_cons, List.flatMap_cons]
          rcases List.cons_lt_cons_iff.mp h with hcd | ⟨rfl, hab⟩
          · exact utf8EncodeChar_append_lt hcd _ _
          · exact List.append_left_lt (ih hab)

/-- Texts are ordered as their bytes are. -/
theorem bytes_lt_iff {a b : String} : bytes a < bytes b ↔ a < b := by
  have hmono : ∀ {s t : String}, s < t → bytes s < bytes t := by
    intro s t h
    rw [bytes_eq_flatMap, bytes_eq_flatMap]
    exact flatMap_utf8EncodeChar_lt h
  refine ⟨fun h => ?_, hmono⟩
  rcases lt_trichotomy a b with hlt | rfl | hgt
  · exact hlt
  · exact absurd h (List.lt_irrefl _)
  · exact absurd h (List.lt_asymm (hmono hgt))

end Text

/-- In the order of the bytes, each name once. -/
def Names.InByteOrder (names : List String) : Prop :=
  names.Pairwise fun a b => Text.bytes a < Text.bytes b

lemma Names.inByteOrder_iff {names : List String} : InByteOrder names ↔ Ascending names := by
  simp only [InByteOrder, Ascending, Text.bytes_lt_iff]

namespace Table

variable {α : Type}

/-- Adding an entry of `f` to the graph of `f` over some keys gives its graph over one key more. -/
lemma insertEntry_graph (f : String → α) (key : String) (keys : List String) :
    insertEntry key (f key) (keys.map fun k => (k, f k))
      = (Names.insert key keys).map fun k => (k, f k) := by
  induction keys with
  | nil => rfl
  | cons other rest ih =>
      rw [List.map_cons, insertEntry, Names.insert]
      split_ifs with h₁ h₂
      · rfl
      · rw [ih, List.map_cons]
      · have heq : key = other := le_antisymm (not_lt.mp h₂) (not_lt.mp h₁)
        rw [heq, List.map_cons]

/-- The same for several entries, added one after the other. -/
lemma foldl_insert_graph (f : String → α) (new keys : List String) (t : Table α)
    (h : t.entries = keys.map fun k => (k, f k)) :
    (new.foldl (fun t k => t.insert k (f k)) t).entries
      = (Names.insertAll new keys).map fun k => (k, f k) := by
  induction new generalizing t keys with
  | nil => exact h
  | cons key rest ih =>
      refine ih (Names.insert key keys) (t.insert key (f key)) ?_
      rw [Table.insert, h, insertEntry_graph]

/-- The keys of a graph are the keys it was made over. -/
lemma contains_graph (f : String → α) {keys : List String} {t : Table α}
    (h : t.entries = keys.map fun k => (k, f k)) (key : String) :
    t.contains key = true ↔ key ∈ keys := by
  rw [contains, get?, h, List.lookup_isSome_iff]
  simp

/-- Another key keeps its value. -/
lemma lookup_insertEntry_of_ne {key other : String} (h : other ≠ key) (value : α)
    (entries : List (String × α)) :
    (insertEntry key value entries).lookup other = entries.lookup other := by
  have hne : (other == key) = false := beq_eq_false_iff_ne.mpr h
  induction entries with
  | nil => simp [insertEntry, List.lookup_cons, hne]
  | cons entry rest ih =>
      obtain ⟨k, old⟩ := entry
      rw [insertEntry]
      split_ifs with h₁ h₂
      · rw [List.lookup_cons, hne]
      · rw [List.lookup_cons, List.lookup_cons, ih]
      · have heq : k = key := le_antisymm (not_lt.mp h₁) (not_lt.mp h₂)
        rw [List.lookup_cons, List.lookup_cons, hne, heq, hne]

lemma contains_insert_of_ne {key other : String} (h : other ≠ key) (t : Table α) (value : α) :
    (t.insert key value).contains other = t.contains other := by
  rw [contains, contains, get?, get?, insert, lookup_insertEntry_of_ne h]

end Table

end UtilityCss
