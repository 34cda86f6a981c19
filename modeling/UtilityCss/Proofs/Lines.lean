import Mathlib.Algebra.GroupWithZero.Nat
import UtilityCss.Proofs.ByteLoops
import UtilityCss.Proofs.LineLookup

/-!
# Lines by their number

The lines of a text are its pieces between newlines.  Both lookups of an offset, the one that searches a
table and the one that looks around the offset itself, answer with the same line, wherever the offset is:
at a newline, inside a character, or past the end.

* **Pieces** — `Text.newlinesBefore` counts bytes, `Text.lineStart` adds up the pieces above a line.
  `splitOn_of_line` finds the pieces around a line that was cut out of the text.
* **Places** — an offset belongs to the character that it is inside of (`exists_place`), and no newline
  begins between the two (`newlinesBefore_of_place`).
* **Checks** — `lineCol?` looks an offset up by binary search for the offset itself, which ends at an
  entry or at the place where the offset would go in, and takes one off in the second case.  Every
  subtraction and every word is checked.  No check fails (`lineCol?_eq`).
-/

namespace UtilityCss

/-! ## Pieces -/

namespace Text

/-- The number of newlines among the bytes in front of an offset. -/
def newlinesBefore (cs : List Char) (offset : Nat) : Nat :=
  ((octets cs).take offset).count '\n'.toUInt8

/-- Where the line with an index begins: behind the lines above it and their newlines. -/
def lineStart (cs : List Char) (index : Nat) : Nat :=
  (((cs.splitOn '\n').take index).map fun line => byteLength line + 1).sum

/-- There is one line more than newlines. -/
lemma length_splitOn (cs : List Char) : (cs.splitOn '\n').length = cs.count '\n' + 1 := by
  induction cs with
  | nil => rfl
  | cons c cs ih =>
      rw [List.splitOn_cons_eq_if_modifyHead]
      by_cases hc : c = '\n'
      · rw [if_pos (by simpa using hc), List.length_cons, ih, hc, List.count_cons_self]
      · rw [if_neg (by simpa using hc), List.length_modifyHead, ih, List.count_cons_of_ne hc]

/-- The lines and the newlines between them make up the text. -/
lemma sum_splitOn (cs : List Char) :
    ((cs.splitOn '\n').map fun line => byteLength line + 1).sum = byteLength cs + 1 := by
  induction cs with
  | nil => rfl
  | cons c cs ih =>
      rw [List.splitOn_cons_eq_if_modifyHead]
      by_cases hc : c = '\n'
      · have hnewline : '\n'.utf8Size = 1 := by decide
        rw [if_pos (by simpa using hc), List.map_cons, List.sum_cons, ih, hc, byteLength, byteLength,
          hnewline]
        omega
      · rw [if_neg (by simpa using hc)]
        cases hsplit : cs.splitOn '\n' with
        | nil => exact absurd hsplit (List.splitOn_ne_nil '\n' cs)
        | cons line lines =>
            rw [hsplit, List.map_cons, List.sum_cons] at ih
            rw [List.modifyHead_cons, List.map_cons, List.sum_cons, byteLength, byteLength]
            omega

/-- The pieces of a text around one of its lines. -/
lemma splitOn_of_line {cs : List Char} {offset : Nat} (line : LineAt cs offset) :
    ∃ upper lower, cs.splitOn '\n' = upper ++ line.body :: lower ∧
      upper.length = line.above.count '\n' ∧
      (upper.map fun line => byteLength line + 1).sum = byteLength line.above := by
  have hparts : line.above ++ (line.body ++ line.below) = cs :=
    calc line.above ++ (line.body ++ line.below)
        = line.above ++ line.left ++ (line.right ++ line.below) := by
          rw [LineAt.body, List.append_assoc, List.append_assoc]
      _ = cs := line.parts
  have hcs := congrArg (List.splitOn '\n') hparts
  have hplain : '\n' ∉ line.body := by
    rw [LineAt.body, List.mem_append, not_or]
    exact ⟨line.left_plain, line.right_plain⟩
  have hlower : ∃ lower, (line.body ++ line.below).splitOn '\n' = line.body :: lower := by
    cases hbelow : line.below with
    | nil =>
        rw [List.append_nil, List.splitOn_eq_singleton hplain]
        exact ⟨[], rfl⟩
    | cons c rest =>
        obtain rfl : c = '\n' := line.below_head c (by simp [hbelow])
        exact ⟨_, List.splitOn_append_cons_self_of_not_mem hplain rest⟩
  obtain ⟨lower, hlower⟩ := hlower
  rcases List.eq_nil_or_concat line.above with habove | ⟨front, c, habove⟩
  · refine ⟨[], lower, ?_, by rw [habove]; rfl, by rw [habove]; rfl⟩
    rw [← hcs, habove]
    exact hlower
  · rw [List.concat_eq_append] at habove
    obtain rfl : c = '\n' := line.above_last c (by simp [habove])
    refine ⟨front.splitOn '\n', lower, ?_, ?_, ?_⟩
    · rw [← hcs, habove, List.append_assoc, List.singleton_append, List.splitOn_append_cons_self,
        hlower]
    · rw [length_splitOn, habove, List.count_append]
      rfl
    · rw [sum_splitOn, habove, byteLength_append]
      rfl

/-- A line starts behind all lines above it. -/
lemma lineStart_of_line {cs : List Char} {offset : Nat} (line : LineAt cs offset) :
    lineStart cs (line.number - 1) = byteLength line.above := by
  obtain ⟨upper, lower, hsplit, hlength, hsum⟩ := splitOn_of_line line
  rw [lineStart, hsplit, LineAt.number, Nat.add_sub_cancel, ← hlength, List.take_left, hsum]

/-- The line of an offset is the one its number names. -/
lemma getElem?_lines {text : String} {offset : Nat} (line : LineAt text.toList offset) :
    (lines text)[line.number - 1]? = some (String.ofList line.body) := by
  obtain ⟨upper, lower, hsplit, hlength, -⟩ := splitOn_of_line line
  rw [lines, hsplit, LineAt.number, Nat.add_sub_cancel, ← hlength, List.map_append,
    List.getElem?_append_right (by rw [List.length_map]), List.length_map, Nat.sub_self]
  rfl

/-! ## Places -/

/-- The line of an offset, taken apart at the character that the offset is at or inside of, or else at the
end. -/
structure Place (cs : List Char) (offset : Nat) where
  start : Nat
  line : LineAt cs start
  start_le : start ≤ offset
  inside : ∀ c ∈ (line.right ++ line.below).head?, offset < start + c.utf8Size

/-- Every offset has a place, past the end too. -/
lemma exists_place (cs : List Char) (offset : Nat) : Nonempty (Place cs offset) := by
  obtain ⟨before, after, rfl, hle, hlt⟩ := exists_character cs offset
  have hafter : (LineAt.cut before after).right ++ (LineAt.cut before after).below = after :=
    List.takeWhile_append_dropWhile
  exact ⟨⟨_, .cut before after, hle, by rwa [hafter]⟩⟩

/-- A newline is one byte, and no byte of another character. -/
lemma count_utf8EncodeChar (c : Char) :
    (String.utf8EncodeChar c).count '\n'.toUInt8 = if c = '\n' then 1 else 0 := by
  by_cases hc : c.utf8Size = 1
  · rw [String.utf8EncodeChar_eq_singleton hc, List.count_singleton]
    refine if_congr ?_ rfl rfl
    rw [beq_iff_eq]
    exact ⟨toUInt8_inj hc rfl, congrArg Char.toUInt8⟩
  · have hne : c ≠ '\n' := by
      rintro rfl
      exact hc (by decide)
    rw [if_neg hne, List.count_eq_zero]
    intro hmem
    exact absurd (le_of_mem_utf8EncodeChar hc hmem) (by decide)

/-- Newlines can be counted in the bytes. -/
lemma count_octets (cs : List Char) : (octets cs).count '\n'.toUInt8 = cs.count '\n' := by
  induction cs with
  | nil => rfl
  | cons c cs ih =>
      rw [octets] at ih
      rw [octets, List.flatMap_cons, List.count_append, ih, count_utf8EncodeChar, List.count_cons,
        Nat.add_comm]
      simp only [beq_iff_eq]

/-- Between a character and an offset inside it no newline begins. -/
lemma newlinesBefore_of_place {cs : List Char} {offset : Nat} (place : Place cs offset) :
    newlinesBefore cs offset + 1 = place.line.number := by
  obtain ⟨start, line, hle, hinside⟩ := place
  have hlength : (octets (line.above ++ line.left)).length = start := by
    rw [octets_length, line.length]
  have hrest : ((octets (line.right ++ line.below)).take (offset - start)).count '\n'.toUInt8 = 0 := by
    cases hafter : line.right ++ line.below with
    | nil => rw [octets, List.flatMap_nil, List.take_nil, List.count_nil]
    | cons c rest =>
        have hsize := hinside c (by rw [hafter]; rfl)
        rw [octets, List.flatMap_cons, List.take_append_of_le_length
          (by rw [String.length_utf8EncodeChar]; omega), List.count_eq_zero]
        intro hmem
        by_cases hc : c.utf8Size = 1
        · rw [show offset - start = 0 by omega] at hmem
          cases hmem
        · exact absurd (le_of_mem_utf8EncodeChar hc (List.mem_of_mem_take hmem)) (by decide)
  have htext : octets cs = octets (line.above ++ line.left) ++ octets (line.right ++ line.below) :=
    (congrArg octets line.parts.symm).trans List.flatMap_append
  rw [newlinesBefore, htext, List.take_append, List.take_of_length_le (by omega), hlength,
    List.count_append, hrest, count_octets, List.count_append, List.count_eq_zero.2 line.left_plain]
  rfl

end Text

namespace SourceText

open Text (byteLength octets LineAt IsBoundary newlinesBefore lineStart)

/-! ## Checks -/

/-- A difference that is not negative. -/
def less? (a b : Nat) : Option Nat :=
  if b ≤ a then some (a - b) else none

/-- A number that fits into a 32-bit word. -/
def word? (n : Nat) : Option Nat :=
  if n < Span.offsetBound then some n else none

/-- Looks for an offset among the entries of a table with indices in `[lo, hi)`.  It ends at an entry, or
else at the index where the offset would go in. -/
def search (starts : Array Nat) (offset lo hi : Nat) : Except Nat Nat :=
  if lo < hi then
    let mid := (lo + hi) / 2
    if starts.getD mid 0 = offset then .ok mid
    else if starts.getD mid 0 < offset then search starts offset (mid + 1) hi
    else search starts offset lo mid
  else .error lo
termination_by hi - lo

/-- The index of the line of an offset.  Where the offset is no line start itself, its line begins at the
entry in front of the place where it would go in. -/
def lineIndex? (starts : Array Nat) (offset : Nat) : Option Nat :=
  match search starts offset 0 starts.size with
  | .ok i => some i
  | .error i => less? i 1

/-- The line and column of an offset, with all checks. -/
def lineCol? (s : SourceText) (offset : Nat) : Option (Nat × Nat) := do
  let index ← lineIndex? s.lineStarts offset
  let start ← s.lineStarts[index]?
  let distance ← less? offset start
  let line ← word? (index + 1)
  let column ← word? (distance + 1)
  return (line, column)

/-- What is known of two indices while an offset is searched between them. -/
structure Window (starts : Array Nat) (offset lo hi : Nat) : Prop where
  le : lo ≤ hi
  le_size : hi ≤ starts.size
  below : 0 < lo → starts.getD (lo - 1) 0 < offset
  above : hi < starts.size → offset < starts.getD hi 0

namespace Window
variable {starts : Array Nat} {offset : Nat}

/-- The step halves the window, and the run ends at an entry or closes it. -/
lemma search {lo hi : Nat} (h : Window starts offset lo hi) :
    match SourceText.search starts offset lo hi with
    | .ok i => i < starts.size ∧ starts.getD i 0 = offset
    | .error i => Window starts offset i i := by
  fun_induction SourceText.search starts offset lo hi with
  | case1 lo hi hmore mid hentry =>
      have := h.le_size
      exact ⟨by omega, hentry⟩
  | case2 lo hi hmore mid hentry hlt ih => exact ih ⟨by omega, h.le_size, fun _ => hlt, h.above⟩
  | case3 lo hi hmore mid hentry hge ih =>
      have := h.le_size
      exact ih ⟨by omega, by omega, h.below, fun _ => by omega⟩
  | case4 lo hi hnone =>
      obtain rfl : lo = hi := by
        have := h.le
        omega
      exact h

/-- A window that is closed is behind an entry, if the first entry is zero. -/
lemma brackets {i : Nat} (h : Window starts offset i i) (hzero : starts.getD 0 0 = 0)
    (hsize : 0 < starts.size) : 0 < i ∧ Brackets starts offset (i - 1) i := by
  have hpos : 0 < i := by
    by_contra hnot
    obtain rfl : i = 0 := by omega
    have := h.above hsize
    omega
  exact ⟨hpos, by omega, h.le_size, Nat.le_of_lt (h.below hpos), h.above⟩

end Window

/-- Line starts ascend from zero. -/
lemma pairwise_lineStarts (path text : String) :
    (make path text).lineStarts.toList.Pairwise (· < ·) :=
  pairwise_startsBehindNewlines 0 _

/-- Binary search for the offset itself ends at the line that is found for it, or behind it. -/
lemma lineIndex?_eq (path text : String) (offset : Nat) :
    lineIndex? (make path text).lineStarts offset
      = some (lastAtMost (make path text).lineStarts offset 0 (make path text).lineStarts.size) := by
  rw [lineIndex?]
  have hall := brackets_all path text offset
  have hfound := hall.found
  have hascending := pairwise_lineStarts path text
  have hwindow : Window (make path text).lineStarts offset 0 (make path text).lineStarts.size :=
    ⟨Nat.zero_le _, Nat.le_refl _, fun h => absurd h (Nat.lt_irrefl _), hall.high⟩
  have hsearch := hwindow.search
  cases hresult : search (make path text).lineStarts offset 0 (make path text).lineStarts.size with
  | ok i =>
      rw [hresult] at hsearch
      obtain ⟨hi, hentry⟩ := hsearch
      refine congrArg some (Brackets.unique hascending ⟨Nat.lt_succ_self i, hi, hentry.le, ?_⟩ hfound)
      intro hnext
      have hlt := List.pairwise_iff_getElem.1 hascending i (i + 1) hi hnext (Nat.lt_succ_self i)
      simp only [Array.getD, hi, hnext, dif_pos] at hentry ⊢
      rw [← hentry]
      exact hlt
  | error i =>
      rw [hresult] at hsearch
      obtain ⟨hpos, hbrackets⟩ := hsearch.brackets rfl hall.lt
      obtain ⟨n, rfl⟩ := Nat.exists_eq_succ_of_ne_zero hpos.ne'
      refine (if_pos hpos).trans ?_
      exact congrArg some (Brackets.unique hascending hbrackets hfound)

/-! ## Lines of a source -/

/-- Both lookups of an offset answer as the text does. -/
structure LookedUp (source : SourceText) (offset line column : Nat) : Prop where
  lineCol : source.lineCol offset = (line, column)
  checked : source.lineCol? offset = some (line, column)
  line_eq : line = newlinesBefore source.content.toList offset + 1
  start_le : lineStart source.content.toList (line - 1) ≤ offset
  column_eq : column = offset - lineStart source.content.toList (line - 1) + 1
  lineText : IsBoundary source.content.toList offset ∨ byteLength source.content.toList ≤ offset →
    ∃ body, source.lineText? offset = some body ∧ (Text.lines source.content)[line - 1]? = some body

/-- No line starts past the end. -/
lemma le_of_mem_startsBehindNewlines {n m : Nat} {cs : List Char}
    (h : m ∈ startsBehindNewlines n cs) : m ≤ n + byteLength cs := by
  induction cs generalizing n with
  | nil => cases h
  | cons c cs ih =>
      have hrest : m ∈ startsBehindNewlines (n + c.utf8Size) cs → m ≤ n + byteLength (c :: cs) := by
        intro hmem
        have := ih hmem
        rw [byteLength]
        omega
      rw [startsBehindNewlines] at h
      split_ifs at h
      · rcases List.mem_cons.1 h with rfl | hmem
        · rw [byteLength]
          omega
        · exact hrest hmem
      · exact hrest h

section
variable {cs : List Char} {offset : Nat} (place : Text.Place cs offset)

/-- An offset inside a character is looked up like the beginning of that character. -/
lemma brackets_of_place : Brackets (0 :: startsBehindNewlines 0 cs).toArray offset
    (place.line.number - 1) place.line.number := by
  obtain ⟨start, line, hle, hinside⟩ := place
  have hline := brackets_of_line line
  refine ⟨hline.lt, hline.le_size, Nat.le_trans hline.low hle, fun hsize => ?_⟩
  obtain ⟨hbelow, hnext⟩ := getD_starts_next line hsize
  rw [LineAt.number, hnext]
  cases hright : line.right with
  | nil =>
      have hnewline := hinside '\n' (by rw [hright, List.nil_append, hbelow]; rfl)
      have hsize : '\n'.utf8Size = 1 := by decide
      omega
  | cons c rest =>
      have hfirst := hinside c (by rw [hright]; rfl)
      rw [byteLength]
      omega

/-- The text of the line that an offset is in, unless the offset is inside a character. -/
lemma lineText?_of_place {source : SourceText} (place : Text.Place source.content.toList offset)
    (h : IsBoundary source.content.toList offset ∨ byteLength source.content.toList ≤ offset) :
    source.lineText? offset = some (String.ofList place.line.body) := by
  obtain ⟨start, line, hle, hinside⟩ := place
  rw [← lineText?_eq line]
  have hstart := line.length
  have hparts := line.parts
  generalize line.above ++ line.left = before, line.right ++ line.below = after at *
  subst hstart
  rcases h with hboundary | hpast
  · suffices hsame : byteLength before = offset by rw [hsame]
    obtain ⟨front, back, hfront, rfl⟩ := Text.isBoundary_iff.1 hboundary
    obtain ⟨middle, rfl⟩ := Text.exists_append_of_byteLength_le (hparts.trans hfront.symm) hle
    rw [← hparts, List.append_assoc, List.append_cancel_left_eq] at hfront
    cases middle with
    | nil => rw [List.append_nil]
    | cons c middle =>
        have hfirst := hinside c (by rw [← hfront]; rfl)
        rw [byteLength_append, byteLength] at hfirst
        omega
  · have hsame : byteLength before = byteLength source.content.toList := by
      rw [← hparts, byteLength_append] at hpast ⊢
      cases after with
      | nil => rfl
      | cons c rest =>
          have hfirst := hinside c rfl
          rw [byteLength] at hpast
          omega
    rw [lineText?, lineText?, hsame, Nat.min_self, Nat.min_eq_right hpast]

end

section
variable {path text : String} {offset : Nat}
  (place : Text.Place (make path text).content.toList offset)

/-- The index that is found for an offset, and the entry of the table there. -/
lemma lastAtMost_of_place :
    lastAtMost (make path text).lineStarts offset 0 (make path text).lineStarts.size
        = place.line.number - 1 ∧
      (make path text).lineStarts[place.line.number - 1]? = some (byteLength place.line.above) := by
  have hbrackets := brackets_of_place place
  have hstart := getD_starts place.line
  rw [← lineStarts_make] at hbrackets hstart
  refine ⟨Brackets.unique (pairwise_lineStarts path text) (brackets_all path text offset).found
    hbrackets, ?_⟩
  have hsize : place.line.above.count '\n' < (make path text).lineStarts.size := hbrackets.le_size
  rw [← hstart, LineAt.number, Nat.add_sub_cancel, Array.getElem?_eq_getElem hsize, Array.getD,
    dif_pos hsize]
  rfl

/-- With all checks, an offset has the line and the column that it has without them. -/
lemma lineCol_of_place (hsize : byteLength (make path text).content.toList + 1 < Span.offsetBound)
    (hoffset : offset + 1 < Span.offsetBound) :
    (make path text).lineCol offset
        = (place.line.number, offset - byteLength place.line.above + 1) ∧
      (make path text).lineCol? offset
        = some (place.line.number, offset - byteLength place.line.above + 1) := by
  obtain ⟨hindex, hentry⟩ := lastAtMost_of_place place
  have habove := place.line.length_eq
  have hstart := place.start_le
  have hnumber : place.line.number - 1 + 1 = place.line.number :=
    Nat.sub_add_cancel (Nat.le_add_left _ _)
  have hnumber_lt : place.line.number < Span.offsetBound := by
    have hcount : Text.newlinesBefore (make path text).content.toList offset
        ≤ byteLength (make path text).content.toList := by
      rw [newlinesBefore, ← Text.octets_length]
      exact Nat.le_trans List.count_le_length (List.take_sublist _ _).length_le
    rw [← Text.newlinesBefore_of_place place]
    omega
  constructor
  · rw [SourceText.lineCol, hindex, Array.getD_eq_getD_getElem?, hentry, Option.getD_some, hnumber,
      Nat.mod_eq_of_lt (by omega)]
  · rw [lineCol?, lineIndex?_eq, hindex]
    simp only [Option.bind_eq_bind, Option.bind_some, hentry, less?, word?, hnumber]
    rw [if_pos (by omega), Option.bind_some, if_pos hnumber_lt, Option.bind_some, if_pos (by omega)]
    rfl

end

/-- **Line lookup.**  Every offset of a source has the line that the newlines in front of it tell, and the
column that is its distance from the start of that line.  The text of the line is the piece of the
content with that number. -/
theorem lineCol_lineText (lib : Library) (path text : String) {offset : Nat}
    (hsize : byteLength (Text.unifyNewlines text.toList) + 1 < Span.offsetBound)
    (hoffset : offset + 1 < Span.offsetBound) :
    ∃ source, (lib.add path text).1.get? (lib.add path text).2 = some source ∧
      source.content = String.ofList (Text.unifyNewlines text.toList) ∧
      (∀ start ∈ source.lineStarts, start < Span.offsetBound) ∧
      ∃ line column, source.LookedUp offset line column := by
  have hcontent : (make path text).content.toList = Text.unifyNewlines text.toList := by
    rw [make, String.toList_ofList]
  rw [← hcontent] at hsize
  obtain ⟨place⟩ := Text.exists_place (make path text).content.toList offset
  refine ⟨make path text, by simp [Library.add, Library.get?], rfl, fun start hstart => ?_, ?_⟩
  · rw [lineStarts_make, List.mem_toArray] at hstart
    rcases List.mem_cons.1 hstart with rfl | hmem
    · omega
    · have := le_of_mem_startsBehindNewlines hmem
      omega
  · obtain ⟨hlineCol, hchecked⟩ := lineCol_of_place place hsize hoffset
    have hstart := Text.lineStart_of_line place.line
    have habove := place.line.length_eq
    have hplace := place.start_le
    refine ⟨_, _, hlineCol, hchecked, (Text.newlinesBefore_of_place place).symm, ?_, ?_, fun h => ?_⟩
    · omega
    · rw [hstart]
    · exact ⟨_, lineText?_of_place place h, Text.getElem?_lines place.line⟩

/-! ### The line behind the last newline -/

namespace EmptyLastLine

/-- Two lines that end in a return and a newline, so that the third line is empty. -/
def text : String := "é\x7b\r\n\x7d\r\n"

def source : SourceText := .make "app.css" text

end EmptyLastLine

open EmptyLastLine in
/-- The end is on the line behind the last newline, and what is past the end has the columns that follow.
Inside the first character there is a line and a column, but no text. -/
theorem lineCol_lineText_past_end :
    byteLength (Text.unifyNewlines text.toList) + 1 < Span.offsetBound ∧ 9 + 1 < Span.offsetBound ∧
      (source.lineCol 6, source.lineText? 6) = ((3, 1), some "") ∧
      (source.lineCol 9, source.lineText? 9) = ((3, 4), some "") ∧
      (source.lineCol 1, source.lineText? 1) = ((1, 2), none) ∧
      ∃ (found : SourceText) (line column : Nat),
        found.content = "é\x7b\n\x7d\n" ∧ found.LookedUp 9 line column := by
  have hsize : byteLength (Text.unifyNewlines text.toList) + 1 < Span.offsetBound := by decide +kernel
  have hoffset : 9 + 1 < Span.offsetBound := by decide
  obtain ⟨found, -, hcontent, -, line, column, hlookedUp⟩ :=
    lineCol_lineText .empty "app.css" text hsize hoffset
  have hunified : String.ofList (Text.unifyNewlines text.toList) = "é\x7b\n\x7d\n" := by decide +kernel
  exact ⟨hsize, hoffset, by decide +kernel, by decide +kernel, by decide +kernel,
    found, line, column, hcontent.trans hunified, hlookedUp⟩

end SourceText

end UtilityCss
