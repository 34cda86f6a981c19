import UtilityCss.Content.Handler
import UtilityCss.Proofs.Boundaries
import UtilityCss.Proofs.Splitting

/-!
# What becomes of class directives

Class directives are taken off where they stand in the original text, and everything else is kept:
`stripClassDirectives_exact`.

* **Places** — `DirectiveAt` asks the text alone: the mark stands at a place, at the very start or behind a
  blank.  Two directives never share a character, nor the blank in front (`DirectiveAt.add_length_lt`), so
  `shownAt` says of each place by itself what becomes of it.
* **Taking off** — `stripBehindBlanks` forgets what it has passed.  That is harmless as long as the rest is
  `Apart`: no directive begins at its first character, and none begun before reaches into it.
* **Bytes** — `stripMarks?` looks for one mark after another byte by byte, and cuts out what stands in front
  of it and behind it; a slice that does not begin and end between two characters is none.  It never fails
  (`stripMarks?_true`), since bytes that are those of the mark begin where a character does
  (`Text.beginsAt_iff`).  It does not know what stands in front of the text that is left, and need not: that
  text begins behind a mark, or at the very start.
-/

namespace UtilityCss

open Text

namespace Handler

/-! ## Places -/

/-- At a place of a text a directive begins: the mark stands there, at the very start or behind a blank. -/
def DirectiveAt (text : List Char) (i : Nat) : Prop :=
  directiveMark <+: text.drop i ∧ (text.take i).getLast?.all isBlank = true

instance (text : List Char) (i : Nat) : Decidable (DirectiveAt text i) :=
  inferInstanceAs (Decidable (_ ∧ _))

/-- What becomes of the character at a place.  A directive becomes one space, where its mark begins; with the
rest of the mark, the blank in front of it goes.  All other characters are kept. -/
def shownAt (text : List Char) (i : Nat) : List Char :=
  if DirectiveAt text i then [' ']
  else if ∃ j < i + 2, DirectiveAt text j ∧ i < j + directiveMark.length then []
  else text[i]?.toList

@[simp] lemma directiveMark_length : directiveMark.length = 6 := by
  decide

/-- A directive has no blank in it, so none begins inside another. -/
lemma not_isBlank_of_mem_directiveMark {c : Char} (hc : c ∈ directiveMark) : isBlank c = false := by
  have hall : directiveMark.all (fun d => !isBlank d) = true := by decide
  simpa using List.all_eq_true.1 hall c hc

section
variable {text rest : List Char} {c : Char} {i j n : Nat}

/-- At the start nothing has to stand in front. -/
lemma directiveAt_zero : DirectiveAt text 0 ↔ directiveMark <+: text := by
  simp [DirectiveAt]

/-- One step along the text. -/
lemma of_drop_eq_cons (hrest : text.drop n = c :: rest) :
    text[n]? = some c ∧ text.drop (n + 1) = rest := by
  constructor
  · rw [← Nat.add_zero n, ← List.getElem?_drop, hrest, List.getElem?_cons_zero]
  · rw [← List.tail_drop, hrest, List.tail_cons]

/-- Further on, the character in front has to be a blank. -/
lemma directiveAt_succ (hrest : text.drop n = c :: rest) :
    DirectiveAt text (n + 1) ↔ directiveMark <+: rest ∧ isBlank c = true := by
  obtain ⟨hchar, hdrop⟩ := of_drop_eq_cons hrest
  simp [DirectiveAt, hdrop, List.getLast?_take, hchar]

/-- The next directive begins behind the mark of a directive, with a blank between the two. -/
lemma DirectiveAt.add_length_lt (hi : DirectiveAt text i) (hj : DirectiveAt text j) (hlt : i < j) :
    i + directiveMark.length < j := by
  by_contra hle
  obtain ⟨back, hback⟩ := hi.1
  obtain ⟨k, rfl⟩ : ∃ k, j = i + k + 1 := ⟨j - i - 1, by omega⟩
  have hinside : k < directiveMark.length := by omega
  -- The character in front of the second mark is one of the first.
  have hchar : text[i + k]? = some directiveMark[k] := by
    rw [← List.getElem?_drop, ← hback, List.getElem?_append_left hinside,
      List.getElem?_eq_getElem hinside]
  have hblank : isBlank directiveMark[k] = true := by
    simpa [List.getLast?_take, hchar] using hj.2
  rw [not_isBlank_of_mem_directiveMark (List.getElem_mem hinside)] at hblank
  cases hblank

lemma shownAt_of_directiveAt (h : DirectiveAt text i) : shownAt text i = [' '] :=
  if_pos h

/-- The blank in front of a directive and the rest of its mark go away. -/
lemma shownAt_eq_nil (h : DirectiveAt text j) (hne : i ≠ j) (hle : j ≤ i + 1)
    (hlt : i < j + directiveMark.length) : shownAt text i = [] := by
  have hnot : ¬ DirectiveAt text i := by
    intro hi
    have hlength := directiveMark_length
    rcases Nat.lt_or_gt_of_ne hne with hbefore | hbehind
    · have := hi.add_length_lt h hbefore
      omega
    · have := h.add_length_lt hi hbehind
      omega
  rw [shownAt, if_neg hnot, if_pos ⟨j, by omega, h, hlt⟩]

/-- The mark of a directive becomes one space. -/
lemma flatMap_shownAt_mark (h : DirectiveAt text j) :
    (List.range' j directiveMark.length).flatMap (shownAt text) = [' '] := by
  have hrest : (List.range' (j + 1) 5).flatMap (shownAt text) = [] := by
    rw [List.flatMap_eq_nil_iff]
    intro i hi
    rw [List.mem_range'_1] at hi
    refine shownAt_eq_nil h (by omega) (by omega) ?_
    rw [directiveMark_length]
    omega
  rw [directiveMark_length, List.range'_succ, List.flatMap_cons, hrest, shownAt_of_directiveAt h]
  rfl

/-! ## Taking off -/

/-- From a place on, a text can be read without what stands in front: no directive begins there, and none
that began before reaches so far. -/
def Apart (text : List Char) (n : Nat) : Prop :=
  ∀ j ≤ n, DirectiveAt text j → j + directiveMark.length ≤ n

lemma apart_zero (h : ¬ directiveMark <+: text) : Apart text 0 := by
  intro j hj hat
  obtain rfl := Nat.le_zero.1 hj
  exact absurd (directiveAt_zero.1 hat) h

/-- Behind a directive the text can be read by itself. -/
lemma DirectiveAt.apart (h : DirectiveAt text i) : Apart text (i + directiveMark.length) := by
  intro j hj hat
  rcases Nat.lt_trichotomy i j with hlt | rfl | hgt
  · have := h.add_length_lt hat hlt
    omega
  · exact Nat.le_refl _
  · have := hat.add_length_lt h hgt
    omega

/-- One character further no directive has begun, unless one begins there. -/
lemma Apart.succ (h : Apart text n) (hnext : ¬ DirectiveAt text (n + 1)) : Apart text (n + 1) := by
  intro j hj hat
  rcases Nat.lt_or_eq_of_le hj with hlt | rfl
  · have := h j (Nat.le_of_lt_succ hlt) hat
    omega
  · exact absurd hat hnext

/-- Between two places where no directive begins a character is kept. -/
lemma Apart.shownAt_eq (h : Apart text n) (hnext : ¬ DirectiveAt text (n + 1)) :
    shownAt text n = text[n]?.toList := by
  have hnone : ∀ j < n + 2, DirectiveAt text j → j + directiveMark.length ≤ n := by
    intro j hj hat
    have hle := h.succ hnext j (Nat.le_of_lt_succ hj) hat
    rw [directiveMark_length] at hle
    exact h j (by omega) hat
  have hhere : ¬ DirectiveAt text n := by
    intro hat
    have hle := hnone n (by omega) hat
    rw [directiveMark_length] at hle
    omega
  rw [shownAt, if_neg hhere, if_neg]
  rintro ⟨j, hj, hat, hlt⟩
  exact Nat.not_le.2 hlt (hnone j hj hat)

/-- What becomes of the places behind a kept character stands behind it. -/
lemma Apart.cons_flatMap (h : Apart text n) (hrest : text.drop n = c :: rest)
    (hnext : ¬ DirectiveAt text (n + 1)) :
    c :: (List.range' (n + 1) rest.length).flatMap (shownAt text)
      = (List.range' n (c :: rest).length).flatMap (shownAt text) := by
  rw [List.length_cons, List.range'_succ, List.flatMap_cons, h.shownAt_eq hnext,
    (of_drop_eq_cons hrest).1]
  rfl

/-- What becomes of the places behind the mark of a directive stands behind one space. -/
lemma DirectiveAt.cons_flatMap (h : DirectiveAt text n) (rest : List Char) :
    ' ' :: (List.range' (n + directiveMark.length) rest.length).flatMap (shownAt text)
      = (List.range' n (directiveMark ++ rest).length).flatMap (shownAt text) := by
  rw [List.length_append, ← List.range'_append_1, List.flatMap_append, flatMap_shownAt_mark h]
  rfl

/-- Where the rest of a text can be read by itself, what is made of it is what becomes of its places. -/
lemma stripBehindBlanks_eq (hrest : text.drop n = rest) (h : Apart text n) :
    stripBehindBlanks rest = (List.range' n rest.length).flatMap (shownAt text) := by
  fun_induction stripBehindBlanks rest generalizing n with
  | case1 => rfl
  | case2 c rest hblank after hcut ih =>
      obtain rfl := cutLead?_eq_some_iff.1 hcut
      have hdrop := (of_drop_eq_cons hrest).2
      have hat : DirectiveAt text (n + 1) :=
        (directiveAt_succ hrest).2 ⟨List.prefix_append _ _, hblank⟩
      have hbehind : text.drop (n + 1 + directiveMark.length) = after := by
        rw [← List.drop_drop, hdrop, List.drop_left]
      have hgone : shownAt text n = [] := by
        exact shownAt_eq_nil hat (by omega) (by omega) (by omega)
      rw [List.length_cons, List.range'_succ, List.flatMap_cons, hgone, List.nil_append,
        ← hat.cons_flatMap, ih hbehind hat.apart]
  | case3 c rest hblank hcut ih =>
      have hnext : ¬ DirectiveAt text (n + 1) := by
        rw [directiveAt_succ hrest]
        exact fun hat => cutLead?_eq_none_iff.1 hcut hat.1
      rw [ih (of_drop_eq_cons hrest).2 (h.succ hnext), h.cons_flatMap hrest hnext]
  | case4 c rest hink ih =>
      have hnext : ¬ DirectiveAt text (n + 1) := by
        rw [directiveAt_succ hrest]
        exact fun hat => hink hat.2
      rw [ih (of_drop_eq_cons hrest).2 (h.succ hnext), h.cons_flatMap hrest hnext]

/-- What is made of a text is what becomes of its places. -/
lemma stripDirectives_eq (text : List Char) :
    stripDirectives text = (List.range text.length).flatMap (shownAt text) := by
  rw [stripDirectives, List.range_eq_range']
  cases hcut : cutLead? directiveMark text with
  | none =>
      have hapart := apart_zero (cutLead?_eq_none_iff.1 hcut)
      exact stripBehindBlanks_eq rfl hapart
  | some after =>
      obtain rfl := cutLead?_eq_some_iff.1 hcut
      have hat : DirectiveAt (directiveMark ++ after) 0 :=
        directiveAt_zero.2 (List.prefix_append _ _)
      have hbehind : (directiveMark ++ after).drop (0 + directiveMark.length) = after := by
        rw [Nat.zero_add, List.drop_left]
      rw [← hat.cons_flatMap, ← stripBehindBlanks_eq hbehind hat.apart]

end

end Handler

/-! ## Bytes -/

namespace Text

/-- The offset of the first occurrence of a text in another, looked for byte by byte. -/
def firstAt? (lead text : List Char) : Option Nat :=
  (List.range (byteLength text + 1)).find? fun i => beginsAt text i lead

section
variable {text : List Char} {first : Char} {others : List Char}

/-- The bytes of a text that is not empty stand where its characters do, and nowhere else. -/
lemma beginsAt_iff {i : Nat} : beginsAt text i (first :: others) = true ↔
    ∃ before after, before ++ (first :: others ++ after) = text ∧ byteLength before = i := by
  constructor
  · intro h
    obtain ⟨before, rest, rfl, hle, hinside⟩ := exists_character text i
    rcases Nat.eq_or_lt_of_le hle with rfl | hlt
    · rw [beginsAt_append, decide_eq_true_eq] at h
      obtain ⟨after, rfl⟩ := h
      exact ⟨before, after, rfl, rfl⟩
    · obtain ⟨k, rfl⟩ := Nat.exists_eq_add_of_lt hlt
      cases rest with
      | nil =>
          have hend : (octets (before ++ [])).length ≤ byteLength before + k + 1 := by
            rw [octets_length, List.append_nil]
            omega
          rw [beginsAt, List.drop_of_length_le hend, octets_cons] at h
          simp [String.utf8EncodeChar_ne_nil] at h
      | cons c rest =>
          have hk := hinside c rfl
          rw [Nat.add_assoc, beginsAt_inside before rest (Nat.succ_pos k) (by omega)] at h
          cases h
  · rintro ⟨before, after, rfl, rfl⟩
    rw [beginsAt_append, decide_eq_true_eq]
    exact List.prefix_append _ _

end

/-- Looking for bytes finds the first occurrence. -/
lemma firstAt?_eq (first : Char) (others text : List Char) :
    firstAt? (first :: others) text
      = (splitFirst? (first :: others) text).map fun parts => byteLength parts.1 := by
  cases hsplit : splitFirst? (first :: others) text with
  | none =>
      rw [firstAt?, Option.map_none, List.find?_eq_none]
      intro i _ hbegins
      obtain ⟨before, after, htext, -⟩ := beginsAt_iff.1 hbegins
      refine splitFirst?_eq_none_iff.1 hsplit ⟨before, after, ?_⟩
      rw [List.append_assoc, htext]
  | some parts =>
      obtain ⟨before, after⟩ := parts
      have htext := splitFirst?_eq_some hsplit
      have hle : byteLength before ≤ byteLength text := by
        rw [← htext, byteLength_append]
        omega
      rw [firstAt?, Option.map_some, List.find?_range_eq_some]
      refine ⟨beginsAt_iff.2 ⟨before, after, htext, rfl⟩,
        List.mem_range.2 (Nat.lt_succ_of_le hle), ?_⟩
      intro j hj
      rw [Bool.not_eq_true', Bool.eq_false_iff]
      intro hbegins
      obtain ⟨front, back, hearlier, rfl⟩ := beginsAt_iff.1 hbegins
      obtain ⟨more, rfl⟩ := isPrefix_of_splitFirst? hsplit hearlier
      rw [byteLength_append] at hj
      exact Nat.not_lt.2 (Nat.le_add_right _ _) hj

/-- What is left behind some bytes is shorter, which is why the loop ends. -/
lemma length_lt_of_slice? {text middle : List Char} {start stop : Nat}
    (h : slice? start stop text = some middle) (hpos : 0 < start) : middle.length < text.length := by
  obtain ⟨before, after, rfl, rfl, -⟩ := exists_of_slice?_eq_some h
  have hne : before ≠ [] := by
    rintro rfl
    exact Nat.lt_irrefl 0 hpos
  have := List.length_pos_iff.2 hne
  simp only [List.length_append]
  omega

end Text

namespace Handler

/-! ## From mark to mark -/

/-- What is shown of a text that ends in front of a mark, and of the mark.  The text begins behind the last
mark, or at the very start. -/
def upToMark? (atStart : Bool) (before : List Char) : Option (List Char) :=
  match before.getLast? with
  | none => some (if atStart then [' '] else before ++ directiveMark)
  | some c =>
    if isBlank c then (slice? 0 (byteLength before - c.utf8Size) before).map (· ++ [' '])
    else some (before ++ directiveMark)

/-- Takes off the class directives of a text, going from mark to mark by bytes. -/
def stripMarks? (atStart : Bool) (cs : List Char) : Option (List Char) :=
  match firstAt? directiveMark cs with
  | none => some cs
  | some i =>
    match _h : slice? (i + byteLength directiveMark) (byteLength cs) cs with
    | none => none
    | some after => do
      let before ← slice? 0 i cs
      let front ← upToMark? atStart before
      let back ← stripMarks? false after
      return front ++ back
termination_by cs.length
decreasing_by exact length_lt_of_slice? _h (Nat.add_pos_right i (by decide))

/-- A text without its class directives, cut out of its bytes. -/
def stripClassDirectives? (text : String) : Option String :=
  if (firstAt? directiveMark text.toList).isSome then
    (stripMarks? true text.toList).map String.ofList
  else some text

/-- The offset of the first directive is the length of what stands in front. -/
lemma firstAt?_directiveMark (cs : List Char) : firstAt? directiveMark cs
    = (splitFirst? directiveMark cs).map fun parts => byteLength parts.1 := by
  have hmark : directiveMark = 'c' :: "lass:".toList := by decide
  rw [hmark]
  exact firstAt?_eq _ _ cs

section
variable {cs before after : List Char}

/-- Without a directive the text is kept. -/
lemma stripMarks?_of_none (h : splitFirst? directiveMark cs = none) (atStart : Bool) :
    stripMarks? atStart cs = some cs := by
  rw [stripMarks?, firstAt?_directiveMark, h]
  rfl

/-- The step: in front of the first mark and behind it the text is cut between two characters. -/
lemma stripMarks?_of_some (h : splitFirst? directiveMark cs = some (before, after)) (atStart : Bool) :
    stripMarks? atStart cs = do
      let front ← upToMark? atStart before
      let back ← stripMarks? false after
      return front ++ back := by
  obtain rfl := splitFirst?_eq_some h
  have hfront := slice?_front before (directiveMark ++ after)
  have hback := slice?_back (before ++ directiveMark) after
  rw [byteLength_append, List.append_assoc] at hback
  rw [stripMarks?, firstAt?_directiveMark, h]
  simp only [Option.map_some]
  split
  next hnone =>
      rw [hback] at hnone
      cases hnone
  next after' hsome =>
      rw [hback] at hsome
      obtain rfl := Option.some.inj hsome
      rw [hfront]
      rfl

lemma stripBehindBlanks_cons (c : Char) (rest : List Char) : stripBehindBlanks (c :: rest) =
    match if isBlank c then cutLead? directiveMark rest else none with
    | some after => ' ' :: stripBehindBlanks after
    | none => c :: stripBehindBlanks rest := by
  generalize hcs : c :: rest = cs
  fun_cases stripBehindBlanks cs with
  | case1 => cases hcs
  | case2 d rest' hblank after hcut =>
      obtain ⟨rfl, rfl⟩ := List.cons.inj hcs
      rw [if_pos hblank, hcut]
  | case3 d rest' hblank hcut =>
      obtain ⟨rfl, rfl⟩ := List.cons.inj hcs
      rw [if_pos hblank, hcut]
  | case4 d rest' hink =>
      obtain ⟨rfl, rfl⟩ := List.cons.inj hcs
      rw [if_neg hink]

/-- A blank takes the directive behind it along. -/
lemma stripBehindBlanks_cons_mark {c : Char} (hc : isBlank c = true) (after : List Char) :
    stripBehindBlanks (c :: (directiveMark ++ after)) = ' ' :: stripBehindBlanks after := by
  have hcut : cutLead? directiveMark (directiveMark ++ after) = some after :=
    cutLead?_eq_some_iff.2 rfl
  simp [stripBehindBlanks_cons, hc, hcut]

/-- Any other character is kept as it is. -/
lemma stripBehindBlanks_cons_of_kept {c : Char} {rest : List Char}
    (h : isBlank c = true → ¬ directiveMark <+: rest) :
    stripBehindBlanks (c :: rest) = c :: stripBehindBlanks rest := by
  rw [stripBehindBlanks_cons]
  by_cases hc : isBlank c = true
  · simp [hc, cutLead?_eq_none_iff.2 (h hc)]
  · simp [hc]

/-- Characters are kept where no mark begins behind a blank. -/
lemma stripBehindBlanks_append {a rest : List Char}
    (h : ∀ front c back, a = front ++ c :: back → isBlank c = true →
      ¬ directiveMark <+: back ++ rest) :
    stripBehindBlanks (a ++ rest) = a ++ stripBehindBlanks rest := by
  induction a with
  | nil => rfl
  | cons c a ih =>
      have hrest := ih fun front d back ha => h (c :: front) d back (congrArg (c :: ·) ha)
      rw [List.cons_append, stripBehindBlanks_cons_of_kept (h [] c a rfl), hrest, List.cons_append]

/-- A mark is kept behind another, since it has no blank in it. -/
lemma stripBehindBlanks_mark (after : List Char) :
    stripBehindBlanks (directiveMark ++ after) = directiveMark ++ stripBehindBlanks after := by
  refine stripBehindBlanks_append fun front c back hmark hblank => ?_
  have hmem : c ∈ directiveMark := by simp [hmark]
  rw [not_isBlank_of_mem_directiveMark hmem] at hblank
  cases hblank

/-- A text without marks is kept. -/
lemma stripBehindBlanks_of_none (h : splitFirst? directiveMark cs = none) :
    stripBehindBlanks cs = cs := by
  rw [splitFirst?_eq_none_iff] at h
  fun_induction stripBehindBlanks cs with
  | case1 => rfl
  | case2 c rest hblank after hcut ih =>
      have hlead : directiveMark <+: rest := ⟨after, cutLead?_eq_some_iff.1 hcut⟩
      exact absurd (List.infix_cons hlead.isInfix) h
  | case3 c rest hblank hcut ih => rw [ih fun hrest => h (List.infix_cons hrest)]
  | case4 c rest hink ih => rw [ih fun hrest => h (List.infix_cons hrest)]

/-- Behind another mark, what is shown up to the first mark is what is made of the text. -/
lemma upToMark?_false (h : splitFirst? directiveMark cs = some (before, after)) :
    (do return (← upToMark? false before) ++ stripBehindBlanks after)
      = some (stripBehindBlanks cs) := by
  have htext := splitFirst?_eq_some h
  obtain rfl | ⟨front, c, rfl⟩ := List.eq_nil_or_concat' before
  · rw [← htext, List.nil_append, stripBehindBlanks_mark]
    rfl
  · -- All but the last character stand in front of something else than a mark.
    have hfront : ∀ f d b, front = f ++ d :: b → isBlank d = true →
        ¬ directiveMark <+: b ++ c :: (directiveMark ++ after) := by
      rintro f d b rfl -
      have hparts : f ++ d :: b ++ [c] = f ++ [d] ++ (b ++ [c]) := by simp
      have hnot := not_isPrefix_of_splitFirst? (hparts ▸ h) (by simp)
      simpa using hnot
    rw [← htext, List.append_assoc, List.singleton_append, stripBehindBlanks_append hfront]
    by_cases hc : isBlank c = true
    · have hslice : slice? 0 (byteLength (front ++ [c]) - c.utf8Size) (front ++ [c]) = some front := by
        rw [byteLength_concat, Nat.add_sub_cancel, slice?_front]
      simp [upToMark?, hc, hslice, stripBehindBlanks_cons_mark]
    · have hlast : stripBehindBlanks (c :: (directiveMark ++ after))
          = c :: (directiveMark ++ stripBehindBlanks after) := by
        rw [stripBehindBlanks_cons_of_kept (absurd · hc), stripBehindBlanks_mark]
      simp [upToMark?, hc, hlast]

/-- At the very start, a mark ends a directive without a blank. -/
lemma upToMark?_true (h : splitFirst? directiveMark cs = some (before, after)) :
    (do return (← upToMark? true before) ++ stripBehindBlanks after)
      = some (stripDirectives cs) := by
  have htext := splitFirst?_eq_some h
  obtain rfl | ⟨front, c, rfl⟩ := List.eq_nil_or_concat' before
  · have hcut : cutLead? directiveMark cs = some after := cutLead?_eq_some_iff.2 htext
    rw [stripDirectives, hcut]
    rfl
  · have hcut : cutLead? directiveMark cs = none := by
      rw [cutLead?_eq_none_iff]
      rintro ⟨back, hback⟩
      have hstart : [] ++ (directiveMark ++ back) = cs := hback
      have hlength := (isPrefix_of_splitFirst? h hstart).length_le
      simp at hlength
    have hsame : upToMark? true (front ++ [c]) = upToMark? false (front ++ [c]) := by
      simp [upToMark?]
    rw [stripDirectives, hcut, hsame, upToMark?_false h]

/-- The run: behind a mark, going from mark to mark never fails, and it makes of a text what reading it
character by character does. -/
lemma stripMarks?_false (cs : List Char) : stripMarks? false cs = some (stripBehindBlanks cs) := by
  induction hlength : cs.length using Nat.strong_induction_on generalizing cs with
  | _ n ih =>
      cases hsplit : splitFirst? directiveMark cs with
      | none => rw [stripMarks?_of_none hsplit, stripBehindBlanks_of_none hsplit]
      | some parts =>
          obtain ⟨before, after⟩ := parts
          have hshorter : after.length < n := by
            rw [← hlength, ← splitFirst?_eq_some hsplit]
            simp
            omega
          rw [stripMarks?_of_some hsplit, ih _ hshorter after rfl]
          exact upToMark?_false hsplit

/-- The byte loop, begun at the start of a text, never fails and finds the same. -/
lemma stripMarks?_true (cs : List Char) : stripMarks? true cs = some (stripDirectives cs) := by
  cases hsplit : splitFirst? directiveMark cs with
  | none =>
      have hcut : cutLead? directiveMark cs = none :=
        cutLead?_eq_none_iff.2 fun hlead => splitFirst?_eq_none_iff.1 hsplit hlead.isInfix
      rw [stripMarks?_of_none hsplit, stripDirectives, hcut, stripBehindBlanks_of_none hsplit]
  | some parts =>
      rw [stripMarks?_of_some hsplit, stripMarks?_false]
      exact upToMark?_true hsplit

lemma stripClassDirectives?_eq (text : String) :
    stripClassDirectives? text = some (stripClassDirectives text) := by
  have hmarks := stripMarks?_true text.toList
  rw [stripClassDirectives?, stripClassDirectives]
  split_ifs with hfound
  · rw [hmarks]
    rfl
  · have hnone := Option.not_isSome_iff_eq_none.1 hfound
    rw [firstAt?_directiveMark, Option.map_eq_none_iff] at hnone
    rw [stripMarks?_of_none hnone, Option.some.injEq] at hmarks
    rw [← hmarks, String.ofList_toList]

end

/-! ## The text -/

/-- **Exactly the directives are taken off.**  Going over a text by bytes, every cut stands between two
characters, and the text that is made is the one read off the places of the original: where the mark stands
at the very start or behind a blank, it becomes one space together with that blank, and every other
character is kept, in order.  No two directives share a character or the blank in front. -/
theorem stripClassDirectives_exact (text : String) :
    stripClassDirectives? text = some (stripClassDirectives text) ∧
      (stripClassDirectives text).toList
        = (List.range text.toList.length).flatMap (shownAt text.toList) ∧
      ∀ i j, DirectiveAt text.toList i → DirectiveAt text.toList j → i < j →
        i + directiveMark.length < j := by
  refine ⟨stripClassDirectives?_eq text, ?_, fun i j hi hj hlt => hi.add_length_lt hj hlt⟩
  rw [stripClassDirectives, String.toList_ofList, stripDirectives_eq]

lemma toList_adjacent : "class:class:a\u3000class:é".toList =
    ['c', 'l', 'a', 's', 's', ':', 'c', 'l', 'a', 's', 's', ':', 'a', '\u3000', 'c', 'l', 'a', 's', 's',
      ':', 'é'] := by
  decide

/-- A directive at the start, a mark directly behind it, and one behind a blank of three bytes. -/
theorem stripClassDirectives_exact_adjacent :
    stripClassDirectives? "class:class:a\u3000class:é" = some " class:a é" ∧
      DirectiveAt "class:class:a\u3000class:é".toList 0 ∧
      DirectiveAt "class:class:a\u3000class:é".toList 14 ∧ 0 + directiveMark.length < 14 := by
  obtain ⟨hbytes, hplaces, happart⟩ := stripClassDirectives_exact "class:class:a\u3000class:é"
  rw [toList_adjacent] at hplaces happart ⊢
  have hshown : (stripClassDirectives "class:class:a\u3000class:é").toList = " class:a é".toList :=
    hplaces.trans (by decide +kernel)
  rw [String.toList_inj] at hshown
  exact ⟨hbytes.trans (congrArg some hshown), by decide, by decide +kernel,
    happart 0 14 (by decide) (by decide +kernel) (by decide)⟩

end Handler

end UtilityCss
