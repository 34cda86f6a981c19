import Mathlib.Data.List.Infix
import UtilityCss.Candidate.Basic
import UtilityCss.Candidate.Extract
import UtilityCss.Proofs.ByteLoops
import UtilityCss.Proofs.Slices
import UtilityCss.Proofs.Texts

/-!
# The variants of a candidate

A candidate is cut at every separator outside of brackets, and nowhere else: `split_exact`.

**Nothing is lost.**  The parts with separators between them are the candidate: `intercalate_splitFrom`.

**Nothing is missed.**  Behind every part that was read no separator begins at depth zero (`Passed`), so
a part that is finished holds none: `Solid`.  Depths are counted anew in every part, which is right since
a separator counts only where the depth is zero.

**Bytes.**  The cuts can be found without decoding a character.  `slices?` walks over the bytes, compares
bytes, and fails if it is ever asked for a slice that does not begin and end between two characters.  It
never fails (`slices?_eq`): in the middle of a character no other character begins, which is what
`IsUTF8FirstByte` tells, and at its beginning the bytes of a separator are there exactly if its
characters are (`octets_isPrefix_iff`).
-/

namespace UtilityCss

open Text

namespace Candidate

/-- The number of brackets open behind a text; a closing one without an opening one does not count. -/
def depthOf (cs : List Char) : Nat :=
  cs.foldl bracketDepth 0

/-- No separator stands at depth zero in a part. -/
def Solid (separator part : List Char) : Prop :=
  ∀ before after, part = before ++ (separator ++ after) → depthOf before ≠ 0

/-- The depth changes by one character at a time. -/
lemma depthOf_concat (cs : List Char) (c : Char) :
    depthOf (cs ++ [c]) = bracketDepth (depthOf cs) c := by
  rw [depthOf, List.foldl_append]
  rfl

section characters
variable {first : Char} {others : List Char}

/-! ## Nothing is lost -/

lemma intercalate_cons_append (separator part : List Char) (parts : List (List Char))
    (last : List Char) :
    separator.intercalate (part :: (parts ++ [last]))
      = part ++ (separator ++ separator.intercalate (parts ++ [last])) := by
  cases parts with
  | nil => simp [List.intercalate, List.intersperse]
  | cons next parts => simp [List.intercalate, List.intersperse]

/-- The parts with separators between them are the text. -/
lemma intercalate_splitFrom (depth : Nat) (part cs : List Char) :
    (first :: others).intercalate
        ((splitFrom first others depth part cs).1 ++ [(splitFrom first others depth part cs).2])
      = part.reverse ++ cs := by
  fun_induction splitFrom first others depth part cs with
  | case1 => simp [List.intercalate]
  | case2 depth part rest ih => simpa using ih
  | case3 depth part rest _ ih => simpa using ih
  | case4 depth part c rest _ _ hstop after hcut parts last hsplit ih =>
      rw [hsplit] at ih
      rw [List.cons_append, intercalate_cons_append, ih, hstop.2, ← cutLead?_eq_some_iff.1 hcut]
      simp
  | case5 depth part c rest _ _ _ _ ih => simpa using ih
  | case6 depth part c rest _ _ _ ih => simpa using ih

/-! ## Nothing is missed -/

/-- At depth zero no separator begins in the part that was read, given back to front, in front of
`cs`. -/
def Passed (separator part cs : List Char) : Prop :=
  ∀ before after, part.reverse = before ++ after → after ≠ [] → depthOf before = 0 →
    ¬ separator <+: after ++ cs

/-- Nothing was passed. -/
lemma passed_nil (separator cs : List Char) : Passed separator [] cs := by
  intro before after hpart hafter
  exact absurd (List.append_eq_nil_iff.1 hpart.symm).2 hafter

/-- A character at which no separator begins is passed. -/
lemma Passed.cons {separator part rest : List Char} {c : Char} (h : Passed separator part (c :: rest))
    (hc : depthOf part.reverse = 0 → ¬ separator <+: c :: rest) :
    Passed separator (c :: part) rest := by
  intro before after hpart hafter hdepth
  obtain rfl | ⟨middle, d, rfl⟩ := List.eq_nil_or_concat' after
  · exact absurd rfl hafter
  · rw [List.reverse_cons, ← List.append_assoc] at hpart
    obtain ⟨hfront, hlast⟩ := List.append_inj' hpart rfl
    obtain rfl := List.singleton_inj.1 hlast
    rw [List.append_assoc, List.singleton_append]
    cases middle with
    | nil =>
        rw [List.append_nil] at hfront
        exact hc (hfront ▸ hdepth)
    | cons e middle => exact h before (e :: middle) hfront (List.cons_ne_nil _ _) hdepth

/-- A part that was passed to its end holds no separator at depth zero. -/
lemma Passed.solid {part cs : List Char} (h : Passed (first :: others) part cs) :
    Solid (first :: others) part.reverse := by
  intro before after hpart hdepth
  refine h before _ hpart (by simp) hdepth ?_
  rw [List.append_assoc]
  exact List.prefix_append _ _

/-- A separator does not begin with another character than its own. -/
lemma not_isPrefix_of_ne {c : Char} (hc : first ≠ c) (rest : List Char) :
    ¬ first :: others <+: c :: rest := fun h =>
  hc (List.cons_prefix_cons.1 h).1

/-- Every part is solid, and all but the last end at depth zero. -/
lemma solid_splitFrom (hsep : '[' ∉ first :: others ∧ ']' ∉ first :: others) {depth : Nat}
    {part cs : List Char} (hdepth : depth = depthOf part.reverse)
    (hpassed : Passed (first :: others) part cs) :
    (∀ x ∈ (splitFrom first others depth part cs).1, Solid (first :: others) x ∧ depthOf x = 0) ∧
      Solid (first :: others) (splitFrom first others depth part cs).2 := by
  have hopening : first ≠ '[' := fun h => hsep.1 (by simp [h])
  have hclosing : first ≠ ']' := fun h => hsep.2 (by simp [h])
  fun_induction splitFrom first others depth part cs with
  | case1 depth part => exact ⟨nofun, hpassed.solid⟩
  | case2 depth part rest ih =>
      refine ih ?_ (hpassed.cons fun _ => not_isPrefix_of_ne hopening rest)
      rw [List.reverse_cons, depthOf_concat, hdepth]
      rfl
  | case3 depth part rest _ ih =>
      refine ih ?_ (hpassed.cons fun _ => not_isPrefix_of_ne hclosing rest)
      rw [List.reverse_cons, depthOf_concat, hdepth]
      rfl
  | case4 depth part c rest _ _ hstop after hcut parts last hsplit ih =>
      obtain ⟨hparts, hlast⟩ := ih rfl (passed_nil _ after)
      rw [hsplit] at hparts hlast
      refine ⟨List.forall_mem_cons.2 ⟨⟨hpassed.solid, ?_⟩, hparts⟩, hlast⟩
      rw [← hdepth, hstop.1]
  | case5 depth part c rest hopen hclose hstop hcut ih =>
      refine ih ?_ (hpassed.cons fun _ h => ?_)
      · rw [List.reverse_cons, depthOf_concat, ← hdepth, bracketDepth, if_neg hopen, if_neg hclose]
      · exact cutLead?_eq_none_iff.1 hcut (List.cons_prefix_cons.1 h).2
  | case6 depth part c rest hopen hclose hgo ih =>
      refine ih ?_ (hpassed.cons fun hzero h => ?_)
      · rw [List.reverse_cons, depthOf_concat, ← hdepth, bracketDepth, if_neg hopen, if_neg hclose]
      · exact hgo ⟨hdepth.trans hzero, (List.cons_prefix_cons.1 h).1.symm⟩

end characters

end Candidate

/-! ## Bytes -/

namespace Text

/-- Whether the bytes at an offset of a text begin with those of another. -/
def beginsAt (text : List Char) (i : Nat) (lead : List Char) : Bool :=
  (octets lead).isPrefixOf ((octets text).drop i)

lemma octets_cons (c : Char) (cs : List Char) :
    octets (c :: cs) = String.utf8EncodeChar c ++ octets cs :=
  List.flatMap_cons

lemma octets_append (a b : List Char) : octets (a ++ b) = octets a ++ octets b :=
  List.flatMap_append

/-- The bytes of a character are not the beginning of those of another. -/
lemma utf8EncodeChar_inj {c d : Char} {a b : List UInt8}
    (h : String.utf8EncodeChar c ++ a = String.utf8EncodeChar d ++ b) : c = d := by
  have hc := ByteArray.utf8DecodeChar?_utf8EncodeChar_append (b := a.toByteArray) (c := c)
  have hd := ByteArray.utf8DecodeChar?_utf8EncodeChar_append (b := b.toByteArray) (c := d)
  rw [← List.toByteArray_append, h, List.toByteArray_append, hd] at hc
  exact (Option.some.inj hc).symm

/-- The bytes of a text begin with those of another exactly if its characters do. -/
lemma octets_isPrefix_iff (lead cs : List Char) : octets lead <+: octets cs ↔ lead <+: cs := by
  induction lead generalizing cs with
  | nil => simp [octets]
  | cons c lead ih =>
      cases cs with
      | nil => simp [octets, String.utf8EncodeChar_ne_nil]
      | cons d cs =>
          rw [octets_cons, octets_cons, List.cons_prefix_cons, ← ih]
          constructor
          · rintro ⟨back, hback⟩
            rw [List.append_assoc] at hback
            obtain rfl := utf8EncodeChar_inj hback
            exact ⟨rfl, back, List.append_cancel_left hback⟩
          · rintro ⟨rfl, hprefix⟩
            exact (List.prefix_append_right_inj _).2 hprefix

/-- At the beginning of a character the bytes tell what the characters are. -/
lemma beginsAt_append (a rest lead : List Char) :
    beginsAt (a ++ rest) (byteLength a) lead = decide (lead <+: rest) := by
  rw [beginsAt, Bool.eq_iff_iff, List.isPrefixOf_iff_prefix, decide_eq_true_iff, octets_append,
    ← octets_length, List.drop_left, octets_isPrefix_iff]

/-- In the middle of a character none begins. -/
lemma beginsAt_inside (a rest : List Char) {c : Char} {k : Nat} (hpos : 0 < k)
    (hk : k < c.utf8Size) (first : Char) (others : List Char) :
    beginsAt (a ++ c :: rest) (byteLength a + k) (first :: others) = false := by
  rw [beginsAt, Bool.eq_false_iff, ne_eq, List.isPrefixOf_iff_prefix]
  rintro ⟨back, hback⟩
  have hlength : k < (String.utf8EncodeChar c).length := by simpa using hk
  have hfirst : 0 < (String.utf8EncodeChar first).length := by simpa using first.utf8Size_pos
  -- The byte at the offset is one of `c`, and it is the first one of `first`.
  have hbyte : (String.utf8EncodeChar c)[k] = (String.utf8EncodeChar first)[0] := by
    have hget := congrArg (·[0]?) hback
    simp only [octets_cons, octets_append, List.append_assoc, List.getElem?_drop, Nat.add_zero] at hget
    rw [List.getElem?_append_left hfirst, ← octets_length,
      List.getElem?_append_right (Nat.le_add_right _ _), Nat.add_sub_cancel_left,
      List.getElem?_append_left hlength, List.getElem?_eq_getElem hfirst,
      List.getElem?_eq_getElem hlength] at hget
    exact (Option.some.inj hget).symm
  have hbegins : (String.utf8EncodeChar c)[k].IsUTF8FirstByte := by
    rw [hbyte]
    exact UInt8.isUTF8FirstByte_getElem_zero_utf8EncodeChar
  rw [UInt8.isUTF8FirstByte_getElem_utf8EncodeChar] at hbegins
  omega

/-- What does not change in the middle of a character is the same behind it as behind its first
byte. -/
lemma eq_behind_of_inside {β : Type} {f : Nat → β} {a : List Char} {c : Char}
    (hf : ∀ k, 0 < k → k < c.utf8Size → f (byteLength a + k) = f (byteLength a + k + 1)) :
    f (byteLength a + 1) = f (byteLength (a ++ [c])) := by
  have hpass : ∀ k, 1 + k ≤ c.utf8Size → f (byteLength a + 1) = f (byteLength a + (1 + k)) := by
    intro k
    induction k with
    | zero => exact fun _ => rfl
    | succ k ih =>
        intro hk
        rw [ih (by omega)]
        exact hf (1 + k) (by omega) (by omega)
  have hpos := c.utf8Size_pos
  have hwhole := hpass (c.utf8Size - 1) (by omega)
  rwa [Nat.add_sub_cancel' (by omega), ← byteLength_concat] at hwhole

end Text

namespace Candidate

lemma byteLength_pos (first : Char) (others : List Char) : 0 < byteLength (first :: others) := by
  have := first.utf8Size_pos
  rw [byteLength]
  omega

/-- The parts of a text, found by walking over its bytes from the offset `i`: all but the last, and the
last.  The part being read began at `start`.  A slice that does not begin and end between two characters
is none. -/
def slices? (text : List Char) (first : Char) (others : List Char) (depth start i : Nat) :
    Option (List (List Char) × List Char) :=
  if i < byteLength text then
    if hasAt text i '[' then slices? text first others (depth + 1) start (i + 1)
    else if hasAt text i ']' then slices? text first others (depth - 1) start (i + 1)
    else if depth = 0 ∧ beginsAt text i (first :: others) then do
      let part ← slice? start i text
      let next := i + byteLength (first :: others)
      let (parts, last) ← slices? text first others depth next next
      return (part :: parts, last)
    else slices? text first others depth start (i + 1)
  else do
    let last ← slice? start (byteLength text) text
    return ([], last)
termination_by byteLength text - i
decreasing_by
  · omega
  · omega
  · have := byteLength_pos first others
    omega
  · omega

/-- The variants of a candidate and its base, cut out of its bytes. -/
def split? (separator candidate : String) : Option (List String × String) :=
  match separator.toList with
  | [] => some ([], candidate)
  | first :: others => do
    let (parts, last) ← slices? candidate.toList first others 0 0 0
    return (parts.map String.ofList, String.ofList last)

section bytes
variable {first : Char} {others : List Char}

/-- The middle of a character is passed over. -/
lemma slices?_behind (a rest : List Char) (c : Char) (depth start : Nat) :
    slices? (a ++ c :: rest) first others depth start (byteLength a + 1)
      = slices? (a ++ c :: rest) first others depth start (byteLength (a ++ [c])) := by
  refine eq_behind_of_inside (f := slices? (a ++ c :: rest) first others depth start)
    fun k hpos hk => ?_
  have hlarge := le_byteAt a rest (show c.utf8Size ≠ 1 by omega) hk
  rw [slices?, if_pos (lt_of_large hlarge), hasAt_of_large hlarge (by decide),
    hasAt_of_large hlarge (by decide), beginsAt_inside a rest hpos hk]
  simp

/-- The step: at the beginning of a character the loop looks at the character. -/
lemma slices?_cons (a rest : List Char) (c : Char) (depth start : Nat) :
    slices? (a ++ c :: rest) first others depth start (byteLength a) =
      if c = '[' then
        slices? (a ++ c :: rest) first others (depth + 1) start (byteLength (a ++ [c]))
      else if c = ']' then
        slices? (a ++ c :: rest) first others (depth - 1) start (byteLength (a ++ [c]))
      else if depth = 0 ∧ first :: others <+: c :: rest then do
        let part ← slice? start (byteLength a) (a ++ c :: rest)
        let (parts, last) ← slices? (a ++ c :: rest) first others depth
          (byteLength (a ++ first :: others)) (byteLength (a ++ first :: others))
        return (part :: parts, last)
      else slices? (a ++ c :: rest) first others depth start (byteLength (a ++ [c])) := by
  rw [slices?, if_pos (lt_byteLength a _ _), hasAt_cons a rest c (by decide),
    hasAt_cons a rest c (by decide), beginsAt_append, slices?_behind, slices?_behind, slices?_behind,
    byteLength_append a (first :: others)]
  simp only [decide_eq_true_eq]

/-- The part between two offsets can be cut out. -/
lemma slice?_part (front part rest : List Char) :
    slice? (byteLength front) (byteLength (front ++ part)) (front ++ part ++ rest) = some part := by
  rw [List.append_assoc, byteLength_append, slice?_append]

/-- The run: the loop finds the parts, and all slices it takes begin and end between characters. -/
lemma slices?_eq (front part cs : List Char) (depth : Nat) :
    slices? (front ++ part.reverse ++ cs) first others depth (byteLength front)
        (byteLength (front ++ part.reverse))
      = some (splitFrom first others depth part cs) := by
  have hstep : ∀ (front part rest : List Char) (c : Char) (depth : Nat),
      slices? (front ++ (c :: part).reverse ++ rest) first others depth (byteLength front)
          (byteLength (front ++ (c :: part).reverse))
        = slices? (front ++ part.reverse ++ c :: rest) first others depth (byteLength front)
          (byteLength (front ++ part.reverse ++ [c])) := by
    intro front part rest c depth
    simp only [List.reverse_cons, List.append_assoc, List.singleton_append]
  fun_induction splitFrom first others depth part cs generalizing front with
  | case1 depth part =>
      have hslice := slice?_part front part.reverse []
      rw [List.append_nil] at hslice
      rw [List.append_nil, slices?, if_neg (Nat.lt_irrefl _), hslice]
      rfl
  | case2 depth part rest ih =>
      rw [slices?_cons, if_pos rfl, ← hstep]
      exact ih front
  | case3 depth part rest _ ih =>
      rw [slices?_cons, if_neg (by decide), if_pos rfl, ← hstep]
      exact ih front
  | case4 depth part c rest hopen hclose hstop after hcut parts last hsplit ih =>
      obtain ⟨rfl, rfl⟩ := hstop
      have hrest := cutLead?_eq_some_iff.1 hcut
      have hlead : c :: others <+: c :: rest := ⟨after, by rw [List.cons_append, hrest]⟩
      -- Behind the separator the next part begins.
      have htext : front ++ part.reverse ++ c :: rest
          = front ++ part.reverse ++ c :: others ++ [].reverse ++ after := by
        rw [← hrest]
        simp
      have hnext := ih (front ++ part.reverse ++ c :: others)
      rw [hsplit, ← htext, List.reverse_nil, List.append_nil] at hnext
      rw [slices?_cons, if_neg hopen, if_neg hclose, if_pos ⟨rfl, hlead⟩, slice?_part, hnext]
      rfl
  | case5 depth part c rest hopen hclose hstop hcut ih =>
      have hno : ¬ (depth = 0 ∧ first :: others <+: c :: rest) := fun h =>
        cutLead?_eq_none_iff.1 hcut (List.cons_prefix_cons.1 h.2).2
      rw [slices?_cons, if_neg hopen, if_neg hclose, if_neg hno, ← hstep]
      exact ih front
  | case6 depth part c rest hopen hclose hgo ih =>
      have hno : ¬ (depth = 0 ∧ first :: others <+: c :: rest) := fun h =>
        hgo ⟨h.1, (List.cons_prefix_cons.1 h.2).1.symm⟩
      rw [slices?_cons, if_neg hopen, if_neg hclose, if_neg hno, ← hstep]
      exact ih front

end bytes

/-! ## The candidate -/

/-- **Splitting loses nothing and misses nothing.**  Take any separator that is not empty.  The parts of
a candidate can be cut out of its bytes, since every cut stands between two characters, and with
separators between them they are the candidate.  If the separator has no bracket, then no part holds it
at depth zero, and every variant ends at depth zero. -/
theorem split_exact {separator : String} (hsep : separator ≠ "") (candidate : String) :
    split? separator candidate = some (split separator candidate) ∧
      separator.intercalate ((split separator candidate).1 ++ [(split separator candidate).2])
        = candidate ∧
      ('[' ∉ separator.toList ∧ ']' ∉ separator.toList →
        (∀ part ∈ (split separator candidate).1 ++ [(split separator candidate).2],
          Solid separator.toList part.toList) ∧
        ∀ variant ∈ (split separator candidate).1, depthOf variant.toList = 0) := by
  obtain ⟨first, others, htext⟩ : ∃ first others, separator.toList = first :: others :=
    List.exists_cons_of_ne_nil (by simpa using hsep)
  have hslices := @slices?_eq first others [] [] candidate.toList 0
  have hjoin := @intercalate_splitFrom first others 0 [] candidate.toList
  simp only [List.reverse_nil, List.nil_append, byteLength] at hslices hjoin
  have hsplit : split separator candidate
      = ((splitFrom first others 0 [] candidate.toList).1.map String.ofList,
        String.ofList (splitFrom first others 0 [] candidate.toList).2) := by
    rw [split, htext]
  refine ⟨?_, ?_, fun hbracket => ?_⟩
  · rw [split?, htext, hsplit]
    show (slices? candidate.toList first others 0 0 0).bind _ = _
    rw [hslices]
    rfl
  · rw [← String.toList_inj, String.toList_intercalate, hsplit, htext, List.map_append, List.map_map]
    simpa [Function.comp_def] using hjoin
  · rw [htext] at hbracket ⊢
    have hstart : 0 = depthOf ([] : List Char).reverse := rfl
    obtain ⟨hparts, hlast⟩ := solid_splitFrom hbracket hstart (passed_nil _ candidate.toList)
    have hof : ∀ variant ∈ (split separator candidate).1,
        Solid (first :: others) variant.toList ∧ depthOf variant.toList = 0 := by
      intro variant hvariant
      rw [hsplit] at hvariant
      obtain ⟨part, hpart, rfl⟩ := List.mem_map.1 hvariant
      rw [String.toList_ofList]
      exact hparts part hpart
    refine ⟨fun part hpart => ?_, fun variant hvariant => (hof variant hvariant).2⟩
    rcases List.mem_append.1 hpart with hpart | hpart
    · exact (hof part hpart).1
    · rw [List.mem_singleton.1 hpart, hsplit, String.toList_ofList]
      exact hlast

/-- A separator of two bytes, which also stands in brackets, and a bracket without an opening one. -/
theorem split_exact_brackets :
    "·" ≠ "" ∧ split? "·" "é[a·b]]·md·p" = some (["é[a·b]]", "md"], "p") ∧
      "·".intercalate ["é[a·b]]", "md", "p"] = "é[a·b]]·md·p" ∧
      Solid "·".toList "é[a·b]]".toList ∧ depthOf "é[a·b]]".toList = 0 := by
  have hsplit : split "·" "é[a·b]]·md·p" = (["é[a·b]]", "md"], "p") := by
    with_unfolding_all rfl
  have hexact := split_exact (show "·" ≠ "" by decide) "é[a·b]]·md·p"
  rw [hsplit] at hexact
  obtain ⟨hslices, hjoined, hsolid⟩ := hexact
  obtain ⟨hparts, hdepths⟩ := hsolid (by decide)
  exact ⟨by decide, hslices, hjoined, hparts _ (by simp), hdepths _ (by simp)⟩

end Candidate

end UtilityCss
