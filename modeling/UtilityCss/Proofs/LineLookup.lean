import Mathlib.Data.List.GetD
import Mathlib.Data.List.TakeWhile
import UtilityCss.Proofs.Boundaries
import UtilityCss.Source.Text

/-!
# Looking up lines

Two questions are asked about an offset of a source, and both have the answer that the text gives.

* **Lines** — `Text.LineAt`: a text taken apart around an offset, into the lines above, the two sides of
  the line itself, and what is below.  There is such a line around every boundary (`LineAt.cut`).
* **The search** — `Brackets` is kept by every step of the binary search, so the index that it finds is
  the last one whose line starts at or in front of the offset (`Brackets.found`).  Line starts ascend, so
  there is only one (`Brackets.unique`).
* **The answers** — `lineCol_eq` and `lineText?_eq`.
-/

namespace UtilityCss

/-! ## Lines -/

namespace Text

/-- A text around one of its offsets. -/
structure LineAt (text : List Char) (offset : Nat) where
  /-- The lines above, each with its newline. -/
  above : List Char
  /-- What of the line stands in front of the offset. -/
  left : List Char
  /-- What of the line stands behind the offset. -/
  right : List Char
  /-- The newline that ends the line, if there is one, and the lines below. -/
  below : List Char
  parts : above ++ left ++ (right ++ below) = text
  length : byteLength (above ++ left) = offset
  above_last : ∀ c ∈ above.getLast?, c = '\n'
  left_plain : '\n' ∉ left
  right_plain : '\n' ∉ right
  below_head : ∀ c ∈ below.head?, c = '\n'

namespace LineAt
variable {text : List Char} {offset : Nat}

/-- The number of the line, counted from one. -/
def number (line : LineAt text offset) : Nat :=
  line.above.count '\n' + 1

/-- The column of the offset, counted from one and in bytes. -/
def column (line : LineAt text offset) : Nat :=
  byteLength line.left + 1

/-- The text of the line. -/
def body (line : LineAt text offset) : List Char :=
  line.left ++ line.right

/-- The offset is the number of bytes above its line and in front of it there. -/
lemma length_eq (line : LineAt text offset) :
    byteLength line.above + byteLength line.left = offset := by
  rw [← byteLength_append, line.length]

/-- A line is what stands on either side of an offset. -/
lemma length_body (line : LineAt text offset) :
    byteLength line.body = byteLength line.left + byteLength line.right :=
  byteLength_append _ _

end LineAt

lemma not_mem_takeWhile_ne (cs : List Char) : '\n' ∉ cs.takeWhile (· != '\n') := by
  intro hmem
  simpa using List.mem_takeWhile_imp hmem

lemma eq_of_mem_head?_dropWhile_ne (cs : List Char) :
    ∀ c ∈ (cs.dropWhile (· != '\n')).head?, c = '\n' := by
  intro c hc
  have hnot := List.head?_dropWhile_not (· != '\n') cs
  rw [Option.mem_def.1 hc] at hnot
  simpa using hnot

/-- Up to the first newline is what stands in front of it. -/
lemma takeWhile_ne_append {a b : List Char} (ha : '\n' ∉ a) (hb : ∀ c ∈ b.head?, c = '\n') :
    (a ++ b).takeWhile (· != '\n') = a := by
  have hall : ∀ c ∈ a, (c != '\n') = true := fun c hc => by
    rw [bne_iff_ne]
    rintro rfl
    exact ha hc
  rw [List.takeWhile_append_of_pos hall]
  cases b with
  | nil => exact List.append_nil a
  | cons c rest =>
      obtain rfl : c = '\n' := hb c rfl
      exact List.append_nil a

/-- The line around the place between two texts. -/
def LineAt.cut (before after : List Char) : LineAt (before ++ after) (byteLength before) where
  above := (before.reverse.dropWhile (· != '\n')).reverse
  left := (before.reverse.takeWhile (· != '\n')).reverse
  right := after.takeWhile (· != '\n')
  below := after.dropWhile (· != '\n')
  parts := by
    rw [← List.reverse_append, List.takeWhile_append_dropWhile, List.takeWhile_append_dropWhile,
      List.reverse_reverse]
  length := by
    rw [← List.reverse_append, List.takeWhile_append_dropWhile, List.reverse_reverse]
  above_last := by
    rw [List.getLast?_reverse]
    exact eq_of_mem_head?_dropWhile_ne before.reverse
  left_plain := by
    rw [List.mem_reverse]
    exact not_mem_takeWhile_ne before.reverse
  right_plain := not_mem_takeWhile_ne after
  below_head := eq_of_mem_head?_dropWhile_ne after

/-- Every offset between characters lies on some line. -/
lemma IsBoundary.exists_line {cs : List Char} {n : Nat} (h : IsBoundary cs n) :
    Nonempty (LineAt cs n) := by
  obtain ⟨before, after, rfl, rfl⟩ := isBoundary_iff.1 h
  exact ⟨.cut before after⟩

end Text

namespace SourceText

open Text (byteLength LineAt)

/-! ## Line starts -/

/-- The starts of lines can be listed a part of the text at a time. -/
lemma startsBehindNewlines_append (n : Nat) (a b : List Char) :
    startsBehindNewlines n (a ++ b) =
      startsBehindNewlines n a ++ startsBehindNewlines (n + byteLength a) b := by
  induction a generalizing n with
  | nil => rfl
  | cons c a ih =>
      rw [List.cons_append, startsBehindNewlines, startsBehindNewlines, byteLength, ih, Nat.add_assoc]
      split_ifs <;> rfl

/-- A line has no other start in it. -/
lemma startsBehindNewlines_of_plain {cs : List Char} (h : '\n' ∉ cs) (n : Nat) :
    startsBehindNewlines n cs = [] := by
  induction cs generalizing n with
  | nil => rfl
  | cons c cs ih =>
      rw [List.mem_cons, not_or] at h
      rw [startsBehindNewlines, if_neg (Ne.symm h.1), ih h.2]

/-- Every newline begins a line. -/
lemma length_startsBehindNewlines (n : Nat) (cs : List Char) :
    (startsBehindNewlines n cs).length = cs.count '\n' := by
  induction cs generalizing n with
  | nil => rfl
  | cons c cs ih =>
      rw [startsBehindNewlines]
      split_ifs with hc
      · rw [List.length_cons, ih, hc, List.count_cons_self]
      · rw [ih, List.count_cons_of_ne hc]

/-- Line starts ascend. -/
lemma pairwise_startsBehindNewlines (n : Nat) (cs : List Char) :
    (n :: startsBehindNewlines n cs).Pairwise (· < ·) := by
  induction cs generalizing n with
  | nil => simp [startsBehindNewlines]
  | cons c cs ih =>
      have hsize := c.utf8Size_pos
      obtain ⟨habove, hpairwise⟩ := List.pairwise_cons.1 (ih (n + c.utf8Size))
      rw [startsBehindNewlines]
      split_ifs
      · refine List.pairwise_cons.2 ⟨?_, ih _⟩
        refine List.forall_mem_cons.2 ⟨by omega, fun m hm => ?_⟩
        exact Nat.lt_of_le_of_lt (Nat.le_add_right _ _) (habove m hm)
      · refine List.pairwise_cons.2 ⟨fun m hm => ?_, hpairwise⟩
        exact Nat.lt_of_le_of_lt (Nat.le_add_right _ _) (habove m hm)

/-! ## The search -/

lemma getD_toArray (l : List Nat) (i d : Nat) : l.toArray.getD i d = l.getD i d := by
  by_cases h : i < l.length <;> simp [Array.getD, List.getD, h]

/-- The last entry of a table that is at most an offset is one of those between two indices. -/
structure Brackets (starts : Array Nat) (offset lo hi : Nat) : Prop where
  lt : lo < hi
  le_size : hi ≤ starts.size
  low : starts.getD lo 0 ≤ offset
  high : hi < starts.size → offset < starts.getD hi 0

namespace Brackets
variable {starts : Array Nat} {offset : Nat}

/-- The search keeps what it knows of its two indices, until they are next to each other. -/
lemma found {lo hi : Nat} (h : Brackets starts offset lo hi) :
    Brackets starts offset (lastAtMost starts offset lo hi) (lastAtMost starts offset lo hi + 1) := by
  fun_induction lastAtMost starts offset lo hi with
  | case1 lo hi hmore mid hle ih =>
      have hle_size := h.le_size
      exact ih ⟨by omega, h.le_size, hle, h.high⟩
  | case2 lo hi hmore mid hgt ih =>
      have hle_size := h.le_size
      exact ih ⟨by omega, by omega, h.low, fun _ => Nat.lt_of_not_le hgt⟩
  | case3 lo hi hnext =>
      obtain rfl : hi = lo + 1 := by
        have := h.lt
        omega
      exact h

/-- One pair of neighbours at most brackets an offset. -/
lemma unique (hstarts : starts.toList.Pairwise (· < ·)) {i j : Nat}
    (hi : Brackets starts offset i (i + 1)) (hj : Brackets starts offset j (j + 1)) : i = j := by
  have hmono : ∀ a b, a ≤ b → b < starts.size → starts.getD a 0 ≤ starts.getD b 0 := by
    intro a b hab hb
    have ha : a < starts.size := Nat.lt_of_le_of_lt hab hb
    simp only [Array.getD, ha, hb, dif_pos]
    rcases Nat.eq_or_lt_of_le hab with rfl | hlt
    · exact Nat.le_refl _
    · exact Nat.le_of_lt (List.pairwise_iff_getElem.1 hstarts a b ha hb hlt)
  by_contra hne
  rcases Nat.lt_or_gt_of_ne hne with hlt | hgt
  · have hsize := hj.le_size
    have hhigh := hi.high (by omega)
    have hle := hmono (i + 1) j hlt (by omega)
    have hlow := hj.low
    omega
  · have hsize := hi.le_size
    have hhigh := hj.high (by omega)
    have hle := hmono (j + 1) i hgt (by omega)
    have hlow := hi.low
    omega

end Brackets

/-! ## The answers -/

section
variable {text : List Char} {offset : Nat} (line : LineAt text offset)

/-- The starts of the lines down to the one around an offset, and of those below it. -/
lemma starts_of_line :
    0 :: startsBehindNewlines 0 text =
      (0 :: startsBehindNewlines 0 line.above) ++
        startsBehindNewlines (offset + byteLength line.right) line.below := by
  have hparts := line.parts
  rw [List.append_assoc] at hparts
  conv_lhs =>
    rw [← hparts, startsBehindNewlines_append, startsBehindNewlines_append, startsBehindNewlines_append,
      startsBehindNewlines_of_plain line.left_plain, startsBehindNewlines_of_plain line.right_plain,
      List.nil_append, List.nil_append, Nat.zero_add, line.length_eq]
  rfl

/-- The start found for an offset is where its line begins. -/
lemma getD_starts_of_line :
    (0 :: startsBehindNewlines 0 line.above).getD (line.above.count '\n') 0 = byteLength line.above := by
  have hlast := line.above_last
  rcases List.eq_nil_or_concat line.above with habove | ⟨front, c, habove⟩
  · rw [habove]
    rfl
  · rw [habove, List.concat_eq_append] at hlast ⊢
    obtain rfl : c = '\n' := hlast c (by simp)
    have hlength : (0 :: startsBehindNewlines 0 front).length = (front ++ ['\n']).count '\n' := by
      simp [length_startsBehindNewlines]
    rw [startsBehindNewlines_append, ← List.cons_append, ← hlength,
      List.getD_append_right _ _ _ _ (Nat.le_refl _), Nat.sub_self, byteLength_append, Nat.zero_add]
    rfl

lemma length_starts_of_line :
    (0 :: startsBehindNewlines 0 line.above).length = line.above.count '\n' + 1 := by
  rw [List.length_cons, length_startsBehindNewlines]

lemma getD_starts :
    (0 :: startsBehindNewlines 0 text).toArray.getD (line.above.count '\n') 0 = byteLength line.above := by
  have hlength := length_starts_of_line line
  rw [starts_of_line line, getD_toArray, List.getD_append _ _ _ _ (by omega), getD_starts_of_line line]

/-- Behind the start of a line stands the start of the next. -/
lemma getD_starts_next
    (hsize : line.above.count '\n' + 1 < (0 :: startsBehindNewlines 0 text).toArray.size) :
    line.below.head? = some '\n' ∧
      (0 :: startsBehindNewlines 0 text).toArray.getD (line.above.count '\n' + 1) 0
        = offset + byteLength line.right + 1 := by
  have hlength := length_starts_of_line line
  rw [starts_of_line line, List.size_toArray, List.length_append, hlength] at hsize
  rw [starts_of_line line, getD_toArray, List.getD_append_right _ _ _ _ (by omega), hlength,
    Nat.sub_self]
  have hhead := line.below_head
  cases hbelow : line.below with
  | nil => simp [hbelow, startsBehindNewlines] at hsize
  | cons c rest =>
      obtain rfl : c = '\n' := hhead c (by simp [hbelow])
      exact ⟨rfl, rfl⟩

/-- The start of the line around an offset is the last that is at most the offset. -/
lemma brackets_of_line : Brackets (0 :: startsBehindNewlines 0 text).toArray offset
    (line.above.count '\n') (line.above.count '\n' + 1) := by
  have hlength := length_starts_of_line line
  refine ⟨Nat.lt_succ_self _, ?_, ?_, fun hsize => ?_⟩
  · rw [starts_of_line line, List.size_toArray, List.length_append]
    omega
  · have := line.length_eq
    rw [getD_starts line]
    omega
  · rw [(getD_starts_next line hsize).2]
    omega

end

/-- One spelling for the ends of lines makes a text no longer. -/
lemma content_size_le (path text : String) :
    (make path text).content.utf8ByteSize ≤ text.utf8ByteSize := by
  have hle : ∀ cs : List Char, byteLength (Text.unifyNewlines cs) ≤ byteLength cs := by
    intro cs
    fun_induction Text.unifyNewlines cs with
    | case1 rest ih =>
        simp only [byteLength]
        omega
    | case2 c rest hpair ih =>
        simp only [byteLength]
        omega
    | case3 => exact Nat.le_refl _
  have hcontent := hle text.toList
  rwa [← String.toList_ofList (l := Text.unifyNewlines text.toList), byteLength_toList,
    byteLength_toList] at hcontent

/-- At first the search is over all lines. -/
lemma brackets_all (path text : String) (offset : Nat) :
    Brackets (make path text).lineStarts offset 0 (make path text).lineStarts.size :=
  ⟨by simp [make], Nat.le_refl _, Nat.zero_le _, fun h => absurd h (Nat.lt_irrefl _)⟩

/-- The line that is found for an offset does not start behind it. -/
lemma lineStart_le (path text : String) (offset : Nat) :
    (make path text).lineStarts.getD (((make path text).lineCol offset).1 - 1) 0 ≤ offset :=
  (brackets_all path text offset).found.low

/-- The index is the list of line starts, the first line included. -/
lemma lineStarts_make (path text : String) : (make path text).lineStarts =
    (0 :: startsBehindNewlines 0 (make path text).content.toList).toArray := by
  rw [make, String.toList_ofList]

/-- **Line and column.**  They are those of the line around the offset. -/
theorem lineCol_eq {path text : String} {offset : Nat}
    (line : LineAt (make path text).content.toList offset) (hsize : offset + 1 < Span.offsetBound) :
    (make path text).lineCol offset = (line.number, line.column) := by
  have hfound := (brackets_all path text offset).found
  have hline := brackets_of_line line
  have hstart := getD_starts line
  rw [← lineStarts_make] at hline hstart
  have hindex : lastAtMost (make path text).lineStarts offset 0 (make path text).lineStarts.size
      = line.above.count '\n' := by
    refine Brackets.unique ?_ hfound hline
    rw [lineStarts_make]
    exact pairwise_startsBehindNewlines 0 _
  have hoffset := line.length_eq
  rw [lineCol, hindex, hstart]
  refine Prod.ext rfl ?_
  show (offset - byteLength line.above + 1) % Span.offsetBound = byteLength line.left + 1
  rw [Nat.mod_eq_of_lt (by omega)]
  omega

/-- **The text of a line.**  It is what stands around the offset between two newlines. -/
theorem lineText?_eq {source : SourceText} {offset : Nat} (line : LineAt source.content.toList offset) :
    source.lineText? offset = some (String.ofList line.body) := by
  have hmin : min offset (byteLength source.content.toList) = byteLength (line.above ++ line.left) := by
    have hoffset := line.length
    have htotal := congrArg byteLength line.parts
    rw [byteLength_append] at htotal
    omega
  have hleft : ((line.above ++ line.left).reverse.takeWhile (· != '\n')).reverse = line.left := by
    rw [List.reverse_append, Text.takeWhile_ne_append, List.reverse_reverse]
    · rw [List.mem_reverse]
      exact line.left_plain
    · rw [List.head?_reverse]
      exact line.above_last
  have hright : (line.right ++ line.below).takeWhile (· != '\n') = line.right :=
    Text.takeWhile_ne_append line.right_plain line.below_head
  have hsplit := splitAtByte?_append (line.above ++ line.left) (line.right ++ line.below)
  rw [line.parts] at hsplit
  rw [lineText?, hmin, hsplit, Text.LineAt.body]
  simp only [Option.bind_eq_bind, Option.bind_some, hleft, hright, Option.pure_def]

end SourceText

end UtilityCss
