import UtilityCss.Proofs.Starts

/-!
# Scanning by bytes

The bodies of comments, string literals and custom properties can be found by walking over the bytes
of the text: the loops here go from offset to offset and look at single bytes, as a reader does that
never decodes a character.  Behind a backslash they skip one byte, which may leave them in the
middle of a character or one past the end.

* **Bytes** — `Text.byteAt`, zero behind the end.  All bytes of a character that is not ASCII are
  large, so `Text.hasAt`, which looks for an ASCII character, tells what character begins at the
  offset (`hasAt_append`), and a loop that passes over large bytes leaves a character it has
  entered (`eq_behind`).
* **Loops** — `commentStop`, `stringStop` and `customStop` return offsets.  From the beginning of a
  body they find what `commentBody`, `stringBody` and `customBody` read
  (`commentStop_append`, `stringStop_append`, `customStop_append`).
-/

namespace UtilityCss

namespace Text

/-! ## Bytes -/

/-- The bytes of a text in UTF-8. -/
def octets (cs : List Char) : List UInt8 :=
  cs.flatMap String.utf8EncodeChar

/-- The byte at an offset, or zero behind the end. -/
def byteAt (cs : List Char) (i : Nat) : UInt8 :=
  (octets cs).getD i 0

/-- Whether the byte at an offset is that of an ASCII character. -/
def hasAt (cs : List Char) (i : Nat) (x : Char) : Bool :=
  byteAt cs i == x.toUInt8

/-- A character of one byte, other than the one that stands for the end. -/
def IsMark (x : Char) : Prop :=
  x.utf8Size = 1 ∧ x ≠ '\x00'

instance (x : Char) : Decidable (IsMark x) :=
  inferInstanceAs (Decidable (_ ∧ _))

/-- A text has as many bytes as its characters take together. -/
lemma octets_length (cs : List Char) : (octets cs).length = byteLength cs := by
  induction cs with
  | nil => rfl
  | cons c cs ih =>
      rw [octets] at ih
      simp [octets, byteLength, ih]

/-- The bytes of a character, found in a text. -/
lemma byteAt_append (a rest : List Char) {c : Char} {i : Nat} (hi : i < c.utf8Size) :
    byteAt (a ++ c :: rest) (byteLength a + i) = (String.utf8EncodeChar c).getD i 0 := by
  have hlength : i < (String.utf8EncodeChar c).length := by simpa using hi
  rw [byteAt, octets, List.flatMap_append, List.flatMap_cons, ← octets_length a, ← octets]
  simp only [List.getD_eq_getElem?_getD]
  rw [List.getElem?_append_right (Nat.le_add_right _ _), Nat.add_sub_cancel_left,
    List.getElem?_append_left hlength]

/-- All bytes of a character that has several are large. -/
lemma le_of_mem_utf8EncodeChar {c : Char} (hc : c.utf8Size ≠ 1) {b : UInt8}
    (hb : b ∈ String.utf8EncodeChar c) : 0x80 ≤ b := by
  have hval : ¬c.val.toNat ≤ 127 := fun h =>
    hc (Char.utf8Size_eq_one_iff.2 (UInt32.le_iff_toNat_le.2 h))
  unfold String.utf8EncodeChar at hb
  simp only at hb
  rw [if_neg hval] at hb
  split_ifs at hb <;>
    · simp only [List.mem_cons, List.not_mem_nil, or_false] at hb
      rcases hb with rfl | rfl | rfl | rfl <;>
        simp only [UInt8.le_iff_toNat_le, UInt8.toNat_ofNat', UInt8.reduceToNat] <;> omega

/-- Every byte of a character of several bytes is large. -/
lemma le_byteAt (a rest : List Char) {c : Char} (hc : c.utf8Size ≠ 1) {i : Nat}
    (hi : i < c.utf8Size) : 0x80 ≤ byteAt (a ++ c :: rest) (byteLength a + i) := by
  have hlength : i < (String.utf8EncodeChar c).length := by simpa using hi
  have hbyte : (String.utf8EncodeChar c).getD i 0 = (String.utf8EncodeChar c)[i] := by
    rw [List.getD_eq_getElem?_getD, List.getElem?_eq_getElem hlength, Option.getD_some]
  rw [byteAt_append a rest hi, hbyte]
  exact le_of_mem_utf8EncodeChar hc (List.getElem_mem hlength)

/-- A character of one byte is that byte. -/
lemma byteAt_mark (a rest : List Char) {c : Char} (hc : c.utf8Size = 1) :
    byteAt (a ++ c :: rest) (byteLength a) = c.toUInt8 := by
  have hbyte := byteAt_append a rest (c := c) (i := 0) (by omega)
  rw [Nat.add_zero, String.utf8EncodeChar_eq_singleton hc] at hbyte
  exact hbyte

/-- Past the end the loops see a zero, which is no mark. -/
lemma byteAt_end (a : List Char) : byteAt a (byteLength a) = 0 := by
  simp [byteAt, ← octets_length]

lemma toNat_toUInt8 {x : Char} (hx : x.utf8Size = 1) :
    x.toUInt8.toNat = x.toNat ∧ x.toNat < 128 := by
  have hval : x.val.toNat ≤ 127 := UInt32.le_iff_toNat_le.1 (Char.utf8Size_eq_one_iff.1 hx)
  have hbyte : x.toUInt8.toNat = x.val.toNat % 256 := rfl
  have hnat : x.toNat = x.val.toNat := rfl
  omega

/-- Marks are small. -/
lemma not_le_toUInt8 {x : Char} (hx : IsMark x) : ¬0x80 ≤ x.toUInt8 := by
  intro hle
  have hnat := UInt8.le_iff_toNat_le.1 hle
  have hsmall := toNat_toUInt8 hx.1
  simp only [UInt8.reduceToNat] at hnat
  omega

/-- The loops tell characters of one byte apart by their bytes. -/
lemma toUInt8_inj {x y : Char} (hx : x.utf8Size = 1) (hy : y.utf8Size = 1)
    (h : x.toUInt8 = y.toUInt8) : x = y := by
  have hnat := congrArg UInt8.toNat h
  rw [(toNat_toUInt8 hx).1, (toNat_toUInt8 hy).1] at hnat
  exact Char.toNat_inj.1 hnat

/-- The loops get back the character of one byte that stands there. -/
lemma ofUInt8_byteAt (a rest : List Char) {c : Char} (hc : c.utf8Size = 1) :
    Char.ofUInt8 (byteAt (a ++ c :: rest) (byteLength a)) = c := by
  rw [byteAt_mark a rest hc]
  exact Char.toNat_inj.1 (toNat_toUInt8 hc).1

/-- At the beginning of a character, its first byte tells whether it is a given ASCII one. -/
lemma hasAt_append (a rest : List Char) {x : Char} (hx : IsMark x) :
    hasAt (a ++ rest) (byteLength a) x = (rest.head? == some x) := by
  rw [hasAt, Bool.eq_iff_iff, beq_iff_eq, beq_iff_eq]
  cases rest with
  | nil =>
      rw [List.append_nil, byteAt_end]
      refine iff_of_false (fun hzero => hx.2 ?_) (by simp)
      exact (toUInt8_inj (y := '\x00') hx.1 rfl hzero.symm)
  | cons c rest =>
      rw [List.head?_cons, Option.some.injEq]
      by_cases hc : c.utf8Size = 1
      · rw [byteAt_mark a rest hc]
        exact ⟨toUInt8_inj hc hx.1, fun h => h ▸ rfl⟩
      · have hlarge := le_byteAt a rest hc (i := 0) c.utf8Size_pos
        rw [Nat.add_zero] at hlarge
        refine iff_of_false (fun heq => ?_) (fun heq => hc (heq ▸ hx.1))
        exact not_le_toUInt8 hx (heq ▸ hlarge)

/-- To look for a mark at a character is to compare the two. -/
lemma hasAt_cons (a rest : List Char) (c : Char) {x : Char} (hx : IsMark x) :
    hasAt (a ++ c :: rest) (byteLength a) x = decide (c = x) := by
  rw [hasAt_append a _ hx, List.head?_cons]
  rfl

/-- Two bytes tell whether the next two characters are given ASCII ones. -/
lemma hasAt_pair (a rest : List Char) (c : Char) {x y : Char} (hx : IsMark x) (hy : IsMark y) :
    (hasAt (a ++ c :: rest) (byteLength a) x && hasAt (a ++ c :: rest) (byteLength a + 1) y) =
      (decide (c = x) && rest.head? == some y) := by
  rw [hasAt_cons a rest c hx]
  by_cases hc : c = x
  · have hnext := hasAt_append (a ++ [c]) rest hy
    rw [List.append_assoc, byteLength_append, byteLength, byteLength, hc, hx.1] at hnext
    rw [← hnext, hc]
    rfl
  · simp [hc]

/-- No mark is a byte of a longer character. -/
lemma hasAt_of_large {cs : List Char} {i : Nat} (h : 0x80 ≤ byteAt cs i) {x : Char}
    (hx : IsMark x) : hasAt cs i x = false := by
  rw [hasAt, beq_eq_false_iff_ne]
  exact fun heq => not_le_toUInt8 hx (heq ▸ h)

lemma lt_of_large {cs : List Char} {i : Nat} (h : 0x80 ≤ byteAt cs i) : i < byteLength cs := by
  by_contra hle
  have hzero : byteAt cs i = 0 := by
    rw [← octets_length, Nat.not_lt] at hle
    simp [byteAt, hle]
  rw [hzero] at h
  exact absurd h (by decide)

lemma byteLength_concat (a : List Char) (c : Char) :
    byteLength (a ++ [c]) = byteLength a + c.utf8Size := by
  rw [byteLength_append, byteLength, byteLength, Nat.add_zero]

/-- What does not change at large bytes is the same behind a character as behind its first byte. -/
lemma eq_behind {β : Type} {f : Nat → β} {a rest : List Char} {c : Char}
    (hf : ∀ j, 0x80 ≤ byteAt (a ++ c :: rest) j → f j = f (j + 1)) :
    f (byteLength a + 1) = f (byteLength (a ++ [c])) := by
  rw [byteLength_concat]
  by_cases hc : c.utf8Size = 1
  · rw [hc]
  · have hpass : ∀ k, 1 + k ≤ c.utf8Size → f (byteLength a + 1) = f (byteLength a + (1 + k)) := by
      intro k
      induction k with
      | zero => exact fun _ => rfl
      | succ k ih =>
          intro hk
          rw [ih (by omega)]
          exact hf _ (le_byteAt a rest hc (by omega))
    have hpos := c.utf8Size_pos
    have hwhole := hpass (c.utf8Size - 1) (by omega)
    rwa [Nat.add_sub_cancel' (by omega)] at hwhole

end Text

open Text

/-! ## Comments -/

/-- From an offset inside a comment: the offset of its closing delimiter and the one behind that,
or twice the end of the text. -/
def commentStop (text : List Char) (j : Nat) : Nat × Nat :=
  if j < byteLength text then
    if hasAt text j '\\' then commentStop text (j + 2)
    else if hasAt text j '*' && hasAt text (j + 1) '/' then (j, j + 2)
    else commentStop text (j + 1)
  else (byteLength text, byteLength text)
termination_by byteLength text - j

/-- Past the end nothing is searched. -/
lemma commentStop_of_le {text : List Char} {j : Nat} (h : byteLength text ≤ j) :
    commentStop text j = (byteLength text, byteLength text) := by
  rw [commentStop, if_neg (by omega)]

/-- Bytes of longer characters are passed one by one. -/
lemma commentStop_of_large {text : List Char} {j : Nat} (h : 0x80 ≤ byteAt text j) :
    commentStop text j = commentStop text (j + 1) := by
  rw [commentStop, if_pos (lt_of_large h), hasAt_of_large h (by decide),
    hasAt_of_large h (by decide)]
  rfl

lemma lt_byteLength (a : List Char) (c : Char) (rest : List Char) :
    byteLength a < byteLength (a ++ c :: rest) := by
  have := c.utf8Size_pos
  rw [byteLength_append, byteLength]
  omega

/-- Having passed its first byte, the loop passes the rest of a character. -/
lemma commentStop_behind (a rest : List Char) (c : Char) :
    commentStop (a ++ c :: rest) (byteLength a + 1) =
      commentStop (a ++ c :: rest) (byteLength (a ++ [c])) :=
  eq_behind fun _ => commentStop_of_large

/-- The loop on offsets takes the same turns as the one on characters. -/
lemma commentStop_cons (a rest : List Char) (c : Char) :
    commentStop (a ++ c :: rest) (byteLength a) =
      if c = '\\' then commentStop (a ++ c :: rest) (byteLength a + 2)
      else if c = '*' && rest.head? == some '/' then (byteLength a, byteLength a + 2)
      else commentStop (a ++ c :: rest) (byteLength (a ++ [c])) := by
  rw [commentStop, if_pos (lt_byteLength a _ _), hasAt_pair a rest c (by decide) (by decide),
    hasAt_cons a rest c (by decide), commentStop_behind]
  simp only [decide_eq_true_eq]

lemma commentStop_close (a rest : List Char) :
    commentStop (a ++ '*' :: '/' :: rest) (byteLength a) = (byteLength a, byteLength a + 2) := by
  rw [commentStop_cons]
  rfl

lemma commentStop_escape (a rest : List Char) (c : Char) :
    commentStop (a ++ '\\' :: c :: rest) (byteLength a) =
      commentStop (a ++ '\\' :: c :: rest) (byteLength (a ++ ['\\', c])) := by
  have hbehind := commentStop_behind (a ++ ['\\']) rest c
  rw [byteLength_concat, List.append_assoc, List.append_assoc] at hbehind
  rw [commentStop_cons, if_pos rfl]
  exact hbehind

/-- A character that neither closes the comment nor hides another is passed over. -/
lemma commentStop_step (a rest : List Char) {c : Char} (hesc : c = '\\' → rest = [])
    (hend : c = '*' → rest.head? ≠ some '/') :
    commentStop (a ++ c :: rest) (byteLength a) =
      commentStop (a ++ c :: rest) (byteLength (a ++ [c])) := by
  rw [commentStop_cons]
  split_ifs with hslash hclose
  · -- The backslash is the last character: two bytes on, the loop is behind the text.
    obtain rfl := hesc hslash
    have hlength := byteLength_concat a c
    rw [commentStop_of_le (Nat.le_refl _), commentStop_of_le]
    rw [hlength, hslash]
    exact Nat.le_succ _
  · simp only [Bool.and_eq_true, decide_eq_true_eq, beq_iff_eq] at hclose
    exact absurd hclose.2 (hend hclose.1)
  · rfl

lemma eq_nil_of_not_cons {cs : List Char} (h : ∀ d rest, cs ≠ d :: rest) : cs = [] := by
  cases cs with
  | nil => rfl
  | cons d rest => exact absurd rfl (h d rest)

/-- From the beginning of its body, the loop finds where a comment ends. -/
lemma commentStop_append (a rest : List Char) : commentStop (a ++ rest) (byteLength a) =
    (byteLength a + byteLength (commentBody rest).1,
      byteLength a + byteLength (commentBody rest).1 +
        if (commentBody rest).2.1 then 2 else 0) := by
  fun_induction commentBody rest generalizing a with
  | case1 => simp [commentStop_of_le, byteLength]
  | case2 rest => simp [commentStop_close, byteLength]
  | case3 c rest text closed rest' hbody ih =>
      have hrest := ih (a ++ ['\\', c])
      rw [commentStop_escape]
      simpa [byteLength_append, byteLength, hbody, Nat.add_assoc] using hrest
  | case4 c rest hend hesc text closed rest' hbody ih =>
      have hrest := ih (a ++ [c])
      rw [commentStop_step a rest]
      · simpa [byteLength_append, byteLength, hbody, Nat.add_assoc] using hrest
      · exact fun h => eq_nil_of_not_cons fun d rest' => hesc d rest' h
      · exact fun h hhead => hend rest.tail h (Piece.head?_eq_some_of_beq (by simp [hhead]))

/-! ## String literals -/

/-- From an offset inside a string literal: whether it is closed, and the offset of the closing
quote or the one where it is cut off. -/
def stringStop (text : List Char) (quote : Char) (j : Nat) : Bool × Nat :=
  if j < byteLength text then
    if hasAt text j '\\' then stringStop text quote (j + 2)
    else if hasAt text j quote then (true, j)
    else if hasAt text j ';' && hasAt text (j + 1) '\n' then (false, j + 1)
    else if hasAt text j '\n' then (false, j)
    else stringStop text quote (j + 1)
  else (false, byteLength text)
termination_by byteLength text - j

/-- How far a literal goes whose text begins at an offset, and whether it is closed there. -/
def StringEnd.stop (start : Nat) : StringEnd → Bool × Nat
  | .closed text _ => (true, start + byteLength text)
  | .cutOff text => (false, start + byteLength text)

lemma StringEnd.stop_cons (start : Nat) (front : List Char) (e : StringEnd) :
    (e.cons front).stop start = e.stop (start + byteLength front) := by
  cases e <;> simp [StringEnd.cons, StringEnd.stop, byteLength_append, Nat.add_assoc]

lemma stringStop_of_le {text : List Char} {quote : Char} {j : Nat} (h : byteLength text ≤ j) :
    stringStop text quote j = (false, byteLength text) := by
  rw [stringStop, if_neg (by omega)]

lemma isMark_quote {quote : Char} (h : quote = '"' ∨ quote = '\'') : IsMark quote := by
  rcases h with rfl | rfl <;> decide

section
variable {quote : Char} (hquote : quote = '"' ∨ quote = '\'')
include hquote

/-- Bytes of longer characters are passed one by one. -/
lemma stringStop_of_large {text : List Char} {j : Nat} (h : 0x80 ≤ byteAt text j) :
    stringStop text quote j = stringStop text quote (j + 1) := by
  rw [stringStop, if_pos (lt_of_large h), hasAt_of_large h (by decide),
    hasAt_of_large h (isMark_quote hquote), hasAt_of_large h (by decide),
    hasAt_of_large h (by decide)]
  rfl

lemma stringStop_behind (a rest : List Char) (c : Char) :
    stringStop (a ++ c :: rest) quote (byteLength a + 1) =
      stringStop (a ++ c :: rest) quote (byteLength (a ++ [c])) :=
  eq_behind fun _ => stringStop_of_large hquote

/-- The loop on offsets takes the same turns as the one on characters. -/
lemma stringStop_cons (a rest : List Char) (c : Char) :
    stringStop (a ++ c :: rest) quote (byteLength a) =
      if c = '\\' then stringStop (a ++ c :: rest) quote (byteLength a + 2)
      else if c = quote then (true, byteLength a)
      else if c = ';' && rest.head? == some '\n' then (false, byteLength a + 1)
      else if c = '\n' then (false, byteLength a)
      else stringStop (a ++ c :: rest) quote (byteLength (a ++ [c])) := by
  rw [stringStop, if_pos (lt_byteLength a _ _), hasAt_pair a rest c (by decide) (by decide),
    hasAt_cons a rest c (by decide), hasAt_cons a rest c (isMark_quote hquote),
    hasAt_cons a rest c (by decide), stringStop_behind hquote]
  simp only [decide_eq_true_eq]

/-- From behind its opening quote, the loop finds where a literal ends. -/
lemma stringStop_append (a rest : List Char) :
    stringStop (a ++ rest) quote (byteLength a) = (stringBody quote rest).stop (byteLength a) := by
  have hslash : quote ≠ '\\' := by
    rcases hquote with rfl | rfl <;> decide
  fun_induction stringBody quote rest generalizing a with
  | case1 => simp [stringStop_of_le, StringEnd.stop, byteLength]
  | case2 c rest ih =>
      have hrest := ih (a ++ ['\\', c])
      have hbehind := stringStop_behind hquote (a ++ ['\\']) rest c
      rw [byteLength_concat, List.append_assoc, List.append_assoc] at hbehind
      rw [StringEnd.stop_cons, ← byteLength_append, ← hrest, List.append_assoc,
        stringStop_cons hquote, if_pos rfl]
      exact hbehind
  | case3 rest hesc =>
      rw [stringStop_cons hquote, if_neg hslash, if_pos rfl]
      rfl
  | case4 c rest hesc hopen hcut =>
      have hc : c = ';' := by simp_all
      rw [stringStop_cons hquote, if_neg (by simp [hc]), if_neg hopen, if_pos hcut]
      rfl
  | case5 rest hesc hopen hcut =>
      rw [stringStop_cons hquote, if_neg (by decide), if_neg hopen, if_neg hcut, if_pos rfl]
      rfl
  | case6 c rest hesc hopen hcut hline ih =>
      have hrest := ih (a ++ [c])
      rw [List.append_assoc, List.singleton_append] at hrest
      rw [StringEnd.stop_cons, ← byteLength_append, ← hrest, stringStop_cons hquote]
      by_cases hlast : c = '\\'
      · -- The backslash is the last character: two bytes on, the loop is behind the text.
        obtain rfl := eq_nil_of_not_cons fun d rest' => hesc d rest' hlast
        rw [if_pos hlast, stringStop_of_le (Nat.le_refl _), stringStop_of_le]
        rw [byteLength_concat, hlast]
        exact Nat.le_succ _
      · rw [if_neg hlast, if_neg hopen, if_neg hcut, if_neg hline]

end

/-! ## Custom properties -/

/-- The loop does not step back. -/
lemma le_commentStop (text : List Char) (j : Nat) :
    min j (byteLength text) ≤ (commentStop text j).2 := by
  fun_induction commentStop text j with
  | case1 j hlt hslash ih => omega
  | case2 j hlt hslash hclose => exact Nat.le_trans (Nat.min_le_left _ _) (Nat.le_add_right _ _)
  | case3 j hlt hslash hclose ih => omega
  | case4 j hlt => exact Nat.min_le_right _ _

/-- Where the scan of a custom property ended. -/
structure CustomStop where
  /-- Offset behind the text of the property. -/
  stop : Nat
  /-- Offset where reading goes on. -/
  resume : Nat
  /-- Where the first colon stands in the text. -/
  colon : Option Nat

/-- From an offset inside a custom property that began at `start`, with the brackets that are open
and the colon if it was met. -/
def customStop (text : List Char) (start j : Nat) (brackets : List Char) (colon : Option Nat) :
    CustomStop :=
  if j < byteLength text then
    if hasAt text j '\\' then customStop text start (j + 2) brackets colon
    else if hasAt text j '/' && hasAt text (j + 1) '*' then
      customStop text start (commentStop text (j + 2)).2 brackets colon
    else if brackets.isEmpty && hasAt text j ';' then ⟨j, j + 1, colon⟩
    else if brackets.isEmpty && hasAt text j '}' then ⟨j, j, colon⟩
    else
      customStop text start (j + 1) (bracketsAfter brackets (Char.ofUInt8 (byteAt text j)))
        (if hasAt text j ':' then colon.or (some (j - start)) else colon)
  else ⟨byteLength text, byteLength text, colon⟩
termination_by byteLength text - j
decreasing_by
  · omega
  · have := le_commentStop text (j + 2)
    omega
  · omega

lemma customStop_of_le {text : List Char} {start j : Nat} {brackets : List Char}
    {colon : Option Nat} (h : byteLength text ≤ j) : customStop text start j brackets colon =
      ⟨byteLength text, byteLength text, colon⟩ := by
  rw [customStop, if_neg (by omega)]

/-- Only marks open and close brackets. -/
lemma bracketsAfter_of_not_isMark {brackets : List Char} (hb : ∀ x ∈ brackets, IsMark x) {c : Char}
    (hc : ¬IsMark c) : bracketsAfter brackets c = brackets := by
  refine bracketsAfter_of_not_mem (fun hopen => hc ?_) fun hclose => hc (hb c hclose)
  simp only [List.mem_cons, List.not_mem_nil, or_false] at hopen
  rcases hopen with rfl | rfl | rfl <;> decide

/-- The brackets that are awaited are marks. -/
lemma isMark_of_mem_bracketsAfter {brackets : List Char} (hb : ∀ x ∈ brackets, IsMark x)
    (c : Char) : ∀ x ∈ bracketsAfter brackets c, IsMark x := by
  intro x hx
  rcases mem_of_mem_bracketsAfter hx with hx | hx
  · exact hb x hx
  · simp only [List.mem_cons, List.not_mem_nil, or_false] at hx
    rcases hx with rfl | rfl | rfl <;> decide

section
variable {brackets : List Char} (hb : ∀ x ∈ brackets, IsMark x)
include hb

/-- Bytes of longer characters are passed one by one, for they change no bracket and are no colon. -/
lemma customStop_of_large {text : List Char} {start j : Nat} {colon : Option Nat}
    (h : 0x80 ≤ byteAt text j) :
    customStop text start j brackets colon = customStop text start (j + 1) brackets colon := by
  have hbrackets : bracketsAfter brackets (Char.ofUInt8 (byteAt text j)) = brackets := by
    refine bracketsAfter_of_not_isMark hb fun hmark => ?_
    exact absurd (toNat_toUInt8 hmark.1).2 (Nat.not_lt.2 (UInt8.le_iff_toNat_le.1 h))
  rw [customStop, if_pos (lt_of_large h)]
  simp only [hasAt_of_large h (show IsMark '\\' by decide),
    hasAt_of_large h (show IsMark '/' by decide), hasAt_of_large h (show IsMark ';' by decide),
    hasAt_of_large h (show IsMark '}' by decide), hasAt_of_large h (show IsMark ':' by decide),
    hbrackets, Bool.false_and, Bool.and_false, Bool.false_eq_true, if_false]

/-- It does not matter that the loop takes the first byte of a character for the whole of it. -/
lemma bracketsAfter_byteAt (a rest : List Char) (c : Char) :
    bracketsAfter brackets (Char.ofUInt8 (byteAt (a ++ c :: rest) (byteLength a))) =
      bracketsAfter brackets c := by
  by_cases hc : c.utf8Size = 1
  · rw [ofUInt8_byteAt a rest hc]
  · have hlarge := le_byteAt a rest hc c.utf8Size_pos
    rw [bracketsAfter_of_not_isMark hb fun hmark => hc hmark.1]
    refine bracketsAfter_of_not_isMark hb fun hmark => ?_
    exact absurd (toNat_toUInt8 hmark.1).2 (Nat.not_lt.2 (UInt8.le_iff_toNat_le.1 hlarge))

lemma customStop_behind (a rest : List Char) (c : Char) (start : Nat) (colon : Option Nat) :
    customStop (a ++ c :: rest) start (byteLength a + 1) brackets colon =
      customStop (a ++ c :: rest) start (byteLength (a ++ [c])) brackets colon :=
  eq_behind (f := fun j => customStop (a ++ c :: rest) start j brackets colon) fun _ =>
    customStop_of_large hb

/-- The loop on offsets takes the same turns as the one on characters. -/
lemma customStop_cons (a rest : List Char) (c : Char) (start : Nat) (colon : Option Nat) :
    customStop (a ++ c :: rest) start (byteLength a) brackets colon =
      if c = '\\' then customStop (a ++ c :: rest) start (byteLength a + 2) brackets colon
      else if c = '/' && rest.head? == some '*' then
        customStop (a ++ c :: rest) start (commentStop (a ++ c :: rest) (byteLength a + 2)).2
          brackets colon
      else if brackets.isEmpty && c == ';' then ⟨byteLength a, byteLength a + 1, colon⟩
      else if brackets.isEmpty && c == '}' then ⟨byteLength a, byteLength a, colon⟩
      else
        customStop (a ++ c :: rest) start (byteLength (a ++ [c])) (bracketsAfter brackets c)
          (if c = ':' then colon.or (some (byteLength a - start)) else colon) := by
  rw [customStop, if_pos (lt_byteLength a _ _), hasAt_pair a rest c (by decide) (by decide),
    bracketsAfter_byteAt hb, customStop_behind (isMark_of_mem_bracketsAfter hb c)]
  simp only [hasAt_cons a rest c (show IsMark '\\' by decide),
    hasAt_cons a rest c (show IsMark ';' by decide),
    hasAt_cons a rest c (show IsMark '}' by decide),
    hasAt_cons a rest c (show IsMark ':' by decide), decide_eq_true_eq, beq_eq_decide]

/-- A character that neither opens a comment nor hides another nor ends the property is passed over. -/
lemma customStop_step (a rest : List Char) {c : Char} (start : Nat) (colon : Option Nat)
    (hesc : c = '\\' → rest = []) (hopen : c = '/' → rest.head? ≠ some '*')
    (hsemi : ¬ (brackets.isEmpty && c == ';') = true)
    (hbrace : ¬ (brackets.isEmpty && c == '}') = true) :
    customStop (a ++ c :: rest) start (byteLength a) brackets colon =
      customStop (a ++ c :: rest) start (byteLength (a ++ [c])) (bracketsAfter brackets c)
        (if c = ':' then colon.or (some (byteLength a - start)) else colon) := by
  rw [customStop_cons hb]
  by_cases hslash : c = '\\'
  · -- The backslash is the last character: two bytes on, the loop is behind the text.
    obtain rfl := hesc hslash
    rw [if_pos hslash, customStop_of_le (Nat.le_refl _), customStop_of_le, if_neg]
    · simp [hslash]
    · rw [byteLength_concat, hslash]
      exact Nat.le_succ _
  · rw [if_neg hslash, if_neg (by simpa using hopen), if_neg hsemi, if_neg hbrace]

end

/-- A character that hides none and neither opens nor closes a comment is the colon or stands in
front of it. -/
lemma splitAtColon?_cons (inComment : Bool) {c : Char} {text rest : List Char}
    (htext : text <+: rest) (hesc : c = '\\' → rest = [])
    (hopen : inComment = false → c = '/' → rest.head? ≠ some '*')
    (hclose : inComment = true → c = '*' → rest.head? ≠ some '/') :
    splitAtColon? inComment (c :: text) =
      if !inComment && c == ':' then some ([], text)
      else (splitAtColon? inComment text).map fun parts => (c :: parts.1, parts.2) := by
  obtain ⟨back, rfl⟩ := htext
  rw [splitAtColon?]
  · rintro d text' rfl rfl
    cases hesc rfl
  · rintro text' rfl rfl rfl
    exact hopen rfl rfl rfl
  · rintro text' rfl rfl rfl
    exact hclose rfl rfl rfl

/-- Where the scan of a custom property goes on that is inside a comment or not. -/
def scanFrom (text : List Char) (inComment : Bool) (j : Nat) : Nat :=
  if inComment then (commentStop text j).2 else j

/-- An escaped character is passed both in a comment and outside. -/
lemma scanFrom_escape {brackets : List Char} (hb : ∀ x ∈ brackets, IsMark x) (inComment : Bool)
    (a rest : List Char) (c : Char) (start : Nat) (colon : Option Nat) :
    customStop (a ++ '\\' :: c :: rest) start
        (scanFrom (a ++ '\\' :: c :: rest) inComment (byteLength a)) brackets colon =
      customStop (a ++ '\\' :: c :: rest) start
        (scanFrom (a ++ '\\' :: c :: rest) inComment (byteLength (a ++ ['\\', c]))) brackets
          colon := by
  cases inComment with
  | true => rw [scanFrom, scanFrom, if_pos rfl, if_pos rfl, commentStop_escape]
  | false =>
      have hbehind := customStop_behind hb (a ++ ['\\']) rest c start colon
      rw [byteLength_concat, List.append_assoc, List.append_assoc] at hbehind
      rw [scanFrom, scanFrom, if_neg nofun, if_neg nofun, customStop_cons hb, if_pos rfl]
      exact hbehind

/-- From behind its hyphens, or from a comment in it, the loop finds where a custom property ends
and where its colon stands. -/
lemma customStop_append (inComment : Bool) (brackets rest : List Char)
    (hb : ∀ x ∈ brackets, IsMark x) (a : List Char) (start : Nat) (colon : Option Nat) :
    customStop (a ++ rest) start (scanFrom (a ++ rest) inComment (byteLength a)) brackets colon =
      ⟨byteLength a + byteLength (customBody inComment brackets rest).1,
        byteLength a + byteLength (customBody inComment brackets rest).1 +
          if (customBody inComment brackets rest).2.1 then 1 else 0,
        colon.or ((splitAtColon? inComment (customBody inComment brackets rest).1).map
          fun parts => byteLength a + byteLength parts.1 - start)⟩ := by
  fun_induction customBody inComment brackets rest generalizing a colon with
  | case1 inComment brackets =>
      cases inComment <;>
        simp [scanFrom, commentStop_of_le, customStop_of_le, splitAtColon?, byteLength]
  | case2 inComment brackets c rest text ended rest' hbody ih =>
      have hrest := ih hb (a ++ ['\\', c]) colon
      rw [scanFrom_escape hb]
      simpa [byteLength_append, byteLength, hbody, Nat.add_assoc, splitAtColon?,
        Function.comp_def] using hrest
  | case3 brackets rest text ended rest' hbody ih =>
      have hrest := ih hb (a ++ ['/', '*']) colon
      have hscan : byteLength (a ++ ['/', '*']) = byteLength a + 2 := byteLength_append a _
      rw [scanFrom, if_pos rfl] at hrest
      rw [scanFrom, if_neg Bool.false_ne_true, customStop_cons hb, if_neg (by decide),
        if_pos (by simp), ← hscan]
      simpa [byteLength_append, byteLength, hbody, Nat.add_assoc, splitAtColon?,
        Function.comp_def] using hrest
  | case4 brackets rest text ended rest' hbody ih =>
      have hrest := ih hb (a ++ ['*', '/']) colon
      have hscan : byteLength (a ++ ['*', '/']) = byteLength a + 2 := byteLength_append a _
      rw [scanFrom, if_neg Bool.false_ne_true] at hrest
      rw [scanFrom, if_pos rfl, commentStop_close, ← hscan]
      simpa [byteLength_append, byteLength, hbody, Nat.add_assoc, splitAtColon?,
        Function.comp_def] using hrest
  | case5 brackets c rest hesc hend text ended rest' hbody ih =>
      have hrest := ih hb (a ++ [c]) colon
      have htext : text <+: rest := by
        have hsource := customBody_source true brackets rest
        rw [hbody] at hsource
        exact ⟨_, hsource⟩
      have hlast : c = '\\' → rest = [] := fun h => eq_nil_of_not_cons fun d rest' => hesc d rest' h
      have hinner : c = '*' → rest.head? ≠ some '/' := fun h hhead =>
        hend rest.tail h (Piece.head?_eq_some_of_beq (by simp [hhead]))
      rw [scanFrom, if_pos rfl] at hrest
      rw [scanFrom, if_pos rfl, commentStop_step a rest hlast hinner,
        splitAtColon?_cons true htext hlast (fun h => absurd h.symm Bool.false_ne_true) fun _ => hinner]
      simpa [byteLength_append, byteLength, hbody, Nat.add_assoc, Function.comp_def] using hrest
  | case6 brackets c rest hesc hcomment hsemi =>
      simp only [Bool.and_eq_true, List.isEmpty_iff, beq_iff_eq] at hsemi
      obtain ⟨rfl, rfl⟩ := hsemi
      rw [scanFrom, if_neg Bool.false_ne_true, customStop_cons hb]
      simp [splitAtColon?, byteLength]
  | case7 brackets c rest hesc hcomment hsemi hbrace =>
      simp only [Bool.and_eq_true, List.isEmpty_iff, beq_iff_eq] at hbrace
      obtain ⟨rfl, rfl⟩ := hbrace
      rw [scanFrom, if_neg Bool.false_ne_true, customStop_cons hb]
      simp [splitAtColon?, byteLength]
  | case8 brackets c rest hesc hcomment hsemi hbrace text ended rest' hbody ih =>
      have hrest := ih (isMark_of_mem_bracketsAfter hb c) (a ++ [c])
        (if c = ':' then colon.or (some (byteLength a - start)) else colon)
      have htext : text <+: rest := by
        have hsource := customBody_source false (bracketsAfter brackets c) rest
        rw [hbody] at hsource
        exact ⟨_, hsource⟩
      have hlast : c = '\\' → rest = [] := fun h => eq_nil_of_not_cons fun d rest' => hesc d rest' h
      have hinner : c = '/' → rest.head? ≠ some '*' := fun h hhead =>
        hcomment rest.tail h (Piece.head?_eq_some_of_beq (by simp [hhead]))
      rw [scanFrom, if_neg Bool.false_ne_true, List.append_assoc, List.singleton_append] at hrest
      rw [scanFrom, if_neg Bool.false_ne_true,
        customStop_step hb a rest start colon hlast hinner hsemi hbrace, hrest, hbody,
        splitAtColon?_cons false htext hlast (fun _ => hinner) fun h => absurd h Bool.false_ne_true]
      by_cases hcolon : c = ':'
      · cases colon <;> simp [hcolon, byteLength_append, byteLength, Nat.add_assoc]
      · simp [hcolon, byteLength_append, byteLength, Nat.add_assoc, Function.comp_def]

end UtilityCss
