import Mathlib.Data.List.DropRight
import UtilityCss.Stylesheet.Reader

/-!
# Trimming and searching texts

The facts about texts that reading a stylesheet rests on.

**Trimming.**  A text that does not begin or end with a blank is its own trim, and blanks around it
do not matter: `trim_blanks`.

**Searching.**  `splitFirst?` finds nothing exactly if the text does not occur
(`splitFirst?_eq_none_iff`), and what it finds comes first (`isPrefix_of_splitFirst?`).  The mark
`!important` begins with its only exclamation mark, so in front of the mark itself a text without it
shows no earlier occurrence: `splitFirst?_importantMark`.

**Blanks.**  A blank in front of a node is passed over, whichever piece it is read as:
`Piece.next_blank` and `Reading.push_blank`.
-/

namespace UtilityCss

namespace Text

/-! ## Trimming -/

lemma trimStart_suffix (cs : List Char) : trimStart cs <:+ cs :=
  List.dropWhile_suffix _

lemma trimEnd_isPrefix (cs : List Char) : trimEnd cs <+: cs :=
  List.rdropWhile_prefix _ cs

/-- A text that is its own trim loses nothing at either end. -/
lemma trim_eq_self_iff {cs : List Char} :
    trim cs = cs ↔ trimStart cs = cs ∧ trimEnd cs = cs := by
  constructor
  · intro h
    have hstart : trimStart cs = cs := by
      refine (trimStart_suffix cs).eq_of_length_le ?_
      calc cs.length = (trim cs).length := by rw [h]
        _ ≤ (trimStart cs).length := (trimEnd_isPrefix _).length_le
    refine ⟨hstart, ?_⟩
    rwa [trim, hstart] at h
  · rintro ⟨hstart, hend⟩
    rw [trim, hstart, hend]

lemma not_isBlank_head {cs : List Char} (h : trim cs = cs) {c : Char} (hc : cs.head? = some c) :
    isBlank c = false := by
  obtain ⟨rest, rfl⟩ : ∃ rest, cs = c :: rest := List.head?_eq_some_iff.1 hc
  by_contra hb
  have hs := (trim_eq_self_iff.1 h).1
  have hlen := (List.dropWhile_suffix (l := rest) isBlank).length_le
  rw [trimStart, List.dropWhile_cons_of_pos (by simpa using hb)] at hs
  rw [hs, List.length_cons] at hlen
  omega

lemma not_isBlank_getLast {cs : List Char} (h : trim cs = cs) {c : Char}
    (hc : cs.getLast? = some c) : isBlank c = false := by
  have he : cs.rdropWhile isBlank = cs := (trim_eq_self_iff.1 h).2
  obtain ⟨front, rfl⟩ := List.getLast?_eq_some_iff.1 hc
  have := List.rdropWhile_eq_self_iff.1 he (by simp)
  simpa using this

lemma trimEnd_append_of_blank (cs : List Char) {bs : List Char} (h : ∀ c ∈ bs, isBlank c = true) :
    trimEnd (cs ++ bs) = trimEnd cs := by
  rw [trimEnd, trimEnd, List.reverse_append, List.dropWhile_append_of_pos]
  simpa using h

lemma trimStart_append_of_blank (cs : List Char) {bs : List Char}
    (h : ∀ c ∈ bs, isBlank c = true) : trimStart (bs ++ cs) = trimStart cs :=
  List.dropWhile_append_of_pos h

lemma trim_of_blank {bs : List Char} (h : ∀ c ∈ bs, isBlank c = true) : trim bs = [] := by
  have hs : trimStart bs = [] := by
    simpa [trimStart] using trimStart_append_of_blank [] h
  rw [trim, hs]
  rfl

/-- Blanks around a trimmed text are all that trimming takes off. -/
lemma trim_blanks {cs : List Char} (h : trim cs = cs) {before after : List Char}
    (hb : ∀ c ∈ before, isBlank c = true) (ha : ∀ c ∈ after, isBlank c = true) :
    trim (before ++ (cs ++ after)) = cs := by
  obtain ⟨hstart, hend⟩ := trim_eq_self_iff.1 h
  rw [trim, trimStart_append_of_blank _ hb]
  cases cs with
  | nil =>
      have := trim_of_blank ha
      rwa [trim] at this
  | cons c cs =>
      have hc : isBlank c = false := not_isBlank_head h rfl
      have hs : trimStart ((c :: cs) ++ after) = (c :: cs) ++ after := by
        simp [trimStart, hc]
      rw [hs, trimEnd_append_of_blank _ ha, hend]

/-- A text that holds a character other than blanks is not empty once it is trimmed. -/
lemma trim_ne_nil {cs : List Char} {c : Char} (hc : c ∈ cs) (hb : isBlank c = false) :
    trim cs ≠ [] := by
  intro h
  have hend : (trimStart cs).rdropWhile isBlank = [] := h
  have hall := List.rdropWhile_eq_nil_iff.1 hend
  have hsplit : cs.takeWhile isBlank ++ trimStart cs = cs := List.takeWhile_append_dropWhile
  rw [← hsplit, List.mem_append] at hc
  have : isBlank c = true := by
    rcases hc with hc | hc
    · exact List.mem_takeWhile_imp hc
    · exact hall c hc
  simp [this] at hb

lemma trim_isEmpty_iff {cs : List Char} :
    (trim cs).isEmpty = true ↔ ∀ c ∈ cs, isBlank c = true := by
  rw [List.isEmpty_iff]
  constructor
  · intro hnil c hc
    by_contra hink
    exact trim_ne_nil hc (by simpa using hink) hnil
  · exact trim_of_blank

/-! ## Searching -/

lemma cutLead?_eq_none_iff {lead cs : List Char} : cutLead? lead cs = none ↔ ¬ lead <+: cs := by
  rw [← not_iff_not, not_not, ← ne_eq, Option.ne_none_iff_exists']
  exact exists_congr fun rest => cutLead?_eq_some_iff

lemma splitFirst?_eq_none_iff {needle cs : List Char} :
    splitFirst? needle cs = none ↔ ¬ needle <:+: cs := by
  induction cs with
  | nil =>
      rw [splitFirst?, Option.map_eq_none_iff, cutLead?_eq_none_iff]
      simp
  | cons c cs ih =>
      rw [List.infix_cons_iff, not_or, ← cutLead?_eq_none_iff, ← ih, splitFirst?]
      cases cutLead? needle (c :: cs) <;> simp

/-- A text whose first character occurs only once in it is found behind any text that does not hold
it: an earlier occurrence would reach into the text itself. -/
lemma splitFirst?_append {c : Char} {tail : List Char} (hc : c ∉ tail) {cs : List Char}
    (h : ¬ c :: tail <:+: cs) (rest : List Char) :
    splitFirst? (c :: tail) (cs ++ (c :: tail ++ rest)) = some (cs, rest) := by
  induction cs with
  | nil =>
      have hcut : cutLead? (c :: tail) (c :: tail ++ rest) = some rest :=
        cutLead?_eq_some_iff.2 rfl
      simp only [List.nil_append, List.cons_append] at hcut ⊢
      rw [splitFirst?, hcut]
  | cons d cs ih =>
      rw [List.infix_cons_iff, not_or] at h
      have hcut : cutLead? (c :: tail) (d :: cs ++ (c :: tail ++ rest)) = none := by
        rw [cutLead?_eq_none_iff]
        intro hpre
        rcases List.prefix_or_prefix_of_prefix hpre (List.prefix_append _ _) with hin | hbeyond
        · exact h.1 hin
        · obtain ⟨beyond, hbeyond⟩ := hbeyond
          rw [← hbeyond, List.prefix_append_right_inj] at hpre
          cases beyond with
          | nil => exact h.1 ⟨[], by simpa using hbeyond.symm⟩
          | cons e beyond =>
              obtain ⟨rfl, -⟩ := List.cons_prefix_cons.1 hpre
              obtain ⟨rfl, rfl⟩ := List.cons.inj hbeyond
              simp at hc
      rw [List.cons_append] at hcut ⊢
      rw [splitFirst?, hcut, ih h.2]
      rfl

/-- What was found stands between the two parts. -/
lemma splitFirst?_eq_some {needle cs before after : List Char}
    (h : splitFirst? needle cs = some (before, after)) : before ++ (needle ++ after) = cs := by
  induction cs generalizing before with
  | nil =>
      obtain ⟨rest, hcut, hparts⟩ := Option.map_eq_some_iff.1 h
      obtain ⟨rfl, rfl⟩ := Prod.mk.inj hparts
      rw [List.nil_append, cutLead?_eq_some_iff.1 hcut]
  | cons c cs ih =>
      rw [splitFirst?] at h
      split at h
      next rest hcut =>
        obtain ⟨rfl, rfl⟩ := Prod.mk.inj (Option.some.inj h)
        rw [List.nil_append, cutLead?_eq_some_iff.1 hcut]
      next =>
        obtain ⟨⟨front, back⟩, hfound, hparts⟩ := Option.map_eq_some_iff.1 h
        obtain ⟨rfl, rfl⟩ := Prod.mk.inj hparts
        exact congrArg (c :: ·) (ih hfound)

/-- What stands in front of the first occurrence stands in front of every occurrence. -/
lemma isPrefix_of_splitFirst? {needle cs before after front back : List Char}
    (h : splitFirst? needle cs = some (before, after)) (hcs : front ++ (needle ++ back) = cs) :
    before <+: front := by
  induction cs generalizing before front with
  | nil =>
      obtain ⟨rest, -, hparts⟩ := Option.map_eq_some_iff.1 h
      obtain ⟨rfl, -⟩ := Prod.mk.inj hparts
      exact List.nil_prefix
  | cons c cs ih =>
      rw [splitFirst?] at h
      split at h
      next rest hcut =>
        obtain ⟨rfl, -⟩ := Prod.mk.inj (Option.some.inj h)
        exact List.nil_prefix
      next hcut =>
        obtain ⟨⟨before', after'⟩, hfound, hparts⟩ := Option.map_eq_some_iff.1 h
        obtain ⟨rfl, rfl⟩ := Prod.mk.inj hparts
        cases front with
        | nil => exact absurd ⟨back, hcs⟩ (cutLead?_eq_none_iff.1 hcut)
        | cons d front =>
            obtain ⟨rfl, htail⟩ := List.cons.inj hcs
            exact List.cons_prefix_cons.2 ⟨rfl, ih hfound htail⟩

/-- No occurrence stands in front of the first. -/
lemma not_infix_of_splitFirst? {needle cs before after : List Char} (hne : needle ≠ [])
    (h : splitFirst? needle cs = some (before, after)) : ¬ needle <:+: before := by
  rintro ⟨front, back, rfl⟩
  have hcs : front ++ (needle ++ (back ++ (needle ++ after))) = cs := by
    simpa using splitFirst?_eq_some h
  have hlength := (isPrefix_of_splitFirst? h hcs).length_le
  simp only [List.length_append] at hlength
  exact hne (List.length_eq_zero_iff.1 (by omega))

/-- As long as something is left of the text in front of the first occurrence, none begins. -/
lemma not_isPrefix_of_splitFirst? {needle cs front back after : List Char}
    (h : splitFirst? needle cs = some (front ++ back, after)) (hne : back ≠ []) :
    ¬ needle <+: back ++ (needle ++ after) := by
  rintro ⟨more, hmore⟩
  have hcs : front ++ (needle ++ more) = cs := by
    rw [hmore, ← List.append_assoc, splitFirst?_eq_some h]
  have hlength := (isPrefix_of_splitFirst? h hcs).length_le
  rw [List.length_append] at hlength
  exact hne (List.length_eq_zero_iff.1 (by omega))

end Text

lemma isGap_iff {c : Char} : isGap c = true ↔ c = ' ' ∨ c = '\n' ∨ c = '\t' := by
  simp [isGap, or_assoc]

lemma isBlank_of_isGap {c : Char} (h : isGap c = true) : Text.isBlank c = true := by
  rcases isGap_iff.1 h with rfl | rfl | rfl <;> decide

/-! ## The first colon and the mark -/

lemma splitAtChar?_append {c : Char} {before : List Char} (h : c ∉ before) (after : List Char) :
    splitAtChar? c (before ++ c :: after) = some (before, after) := by
  induction before with
  | nil => simp [splitAtChar?]
  | cons d before ih =>
      rw [List.mem_cons, not_or] at h
      rw [List.cons_append, splitAtChar?, if_neg (Ne.symm h.1), ih h.2]
      rfl

/-- The parts around the first of a character make up the text. -/
lemma splitAtChar?_eq_some {c : Char} {cs before after : List Char}
    (h : splitAtChar? c cs = some (before, after)) : before ++ c :: after = cs ∧ c ∉ before := by
  induction cs generalizing before with
  | nil => cases h
  | cons d cs ih =>
      rw [splitAtChar?] at h
      split_ifs at h with hd
      · obtain ⟨rfl, rfl⟩ := Prod.mk.inj (Option.some.inj h)
        exact ⟨congrArg (· :: cs) hd.symm, List.not_mem_nil⟩
      · obtain ⟨⟨front, back⟩, hsplit, hparts⟩ := Option.map_eq_some_iff.1 h
        obtain ⟨rfl, rfl⟩ := Prod.mk.inj hparts
        obtain ⟨hsource, hnot⟩ := ih hsplit
        exact ⟨congrArg (d :: ·) hsource, by simp [hnot, Ne.symm hd]⟩

lemma splitAtChar?_eq_none {c : Char} {cs : List Char} (h : splitAtChar? c cs = none) : c ∉ cs := by
  induction cs with
  | nil => exact List.not_mem_nil
  | cons d cs ih =>
      rw [splitAtChar?] at h
      split_ifs at h with hd
      rw [List.mem_cons, not_or]
      exact ⟨Ne.symm hd, ih (Option.map_eq_none_iff.1 h)⟩

/-- The parts around the colon of a custom property make up its text. -/
lemma splitAtColon?_eq_some {inComment : Bool} {cs before after : List Char}
    (h : splitAtColon? inComment cs = some (before, after)) : before ++ ':' :: after = cs := by
  fun_induction splitAtColon? inComment cs generalizing before with
  | case1 => cases h
  | case2 inComment c rest ih =>
      obtain ⟨⟨front, back⟩, hsplit, hparts⟩ := Option.map_eq_some_iff.1 h
      obtain ⟨rfl, rfl⟩ := Prod.mk.inj hparts
      exact congrArg ('\\' :: c :: ·) (ih hsplit)
  | case3 rest ih =>
      obtain ⟨⟨front, back⟩, hsplit, hparts⟩ := Option.map_eq_some_iff.1 h
      obtain ⟨rfl, rfl⟩ := Prod.mk.inj hparts
      exact congrArg ('/' :: '*' :: ·) (ih hsplit)
  | case4 rest ih =>
      obtain ⟨⟨front, back⟩, hsplit, hparts⟩ := Option.map_eq_some_iff.1 h
      obtain ⟨rfl, rfl⟩ := Prod.mk.inj hparts
      exact congrArg ('*' :: '/' :: ·) (ih hsplit)
  | case5 inComment c rest hesc hopen hclose hcolon =>
      obtain ⟨rfl, rfl⟩ := Prod.mk.inj (Option.some.inj h)
      rw [Bool.and_eq_true, beq_iff_eq] at hcolon
      rw [hcolon.2]
      rfl
  | case6 inComment c rest hesc hopen hclose hcolon ih =>
      obtain ⟨⟨front, back⟩, hsplit, hparts⟩ := Option.map_eq_some_iff.1 h
      obtain ⟨rfl, rfl⟩ := Prod.mk.inj hparts
      exact congrArg (c :: ·) (ih hsplit)

/-- In front of the mark a text without it shows no occurrence of it. -/
lemma splitFirst?_importantMark {cs : List Char} (h : ¬ importantMark <:+: cs) :
    Text.splitFirst? importantMark (cs ++ importantMark) = some (cs, []) := by
  have hbang : '!' ∉ "important".toList := by decide
  have := Text.splitFirst?_append hbang h []
  rwa [List.append_nil] at this

/-! ## Blanks in front of a node -/

/-- A blank is a piece of its own, whatever follows it. -/
lemma Piece.next_blank {c : Char} (hc : isGap c = true) (fresh : Bool) (rest : List Char) :
    ∃ p, Piece.next fresh c rest = (p, rest) ∧ (p = .gap c ∨ p = .newline ∨ p = .plain c) := by
  by_cases hrun : rest.head?.any isGap = true
  · refine ⟨.gap c, ?_, Or.inl rfl⟩
    rcases isGap_iff.1 hc with rfl | rfl | rfl <;> simp [Piece.next, isGap, hrun]
  · rcases isGap_iff.1 hc with rfl | rfl | rfl
    · exact ⟨.plain ' ', by simp [Piece.next, hrun], Or.inr (Or.inr rfl)⟩
    · exact ⟨.newline, by simp [Piece.next, hrun], Or.inr (Or.inl rfl)⟩
    · exact ⟨.plain '\t', by simp [Piece.next, hrun], Or.inr (Or.inr rfl)⟩

/-- Where no text is being collected, the reader only moves past it. -/
lemma Reading.push_blank {r : Reading} (hcurrent : r.current = []) {c : Char} (hc : isGap c = true)
    {p : Piece} (hp : p = .gap c ∨ p = .newline ∨ p = .plain c) :
    r.push p = .ok (r.advance p.width) := by
  rcases hp with rfl | rfl | rfl
  · rfl
  · simp [Reading.push, Except.map, pushNewline, hcurrent]
  · simp [Reading.push, Except.map, pushPlain, hcurrent, hc]

end UtilityCss
