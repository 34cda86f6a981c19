import UtilityCss.Proofs.ByteLoops
import UtilityCss.Proofs.Boundaries
import UtilityCss.Proofs.Texts

/-!
# A reader that checks every cut

`Checked.read?` reads a stylesheet by offsets, as a reader over bytes does: it looks at single bytes,
runs the loops of `ByteLoops` and cuts texts out of the source between the offsets it computed.
Every cut is a `Text.slice?`, which fails on an offset past the end or inside a character, and a step
that does not move on fails too; so an answer `none` stands for a reader that breaks down or never
ends.

* **The reader** — one definition for every kind of piece, and `Checked.step?`, which tells them apart
  by the next bytes.
* **No cut fails** — at the beginning of a character, a step does what `Reading.push` does with the
  next piece (`step?_eq`).
* **The run** — the steps meet in the same readings to the end, and each begins at a boundary of the
  text and moves on inside it (`readStylesheet_checked`).
-/

namespace UtilityCss

open Text

namespace Checked

/-! ## The reader -/

/-- A declaration from its text.  It is split at the offset of its colon if that is known, or else
at the first colon. -/
def declaration? (text : List Char) (colon : Option Nat) (span : Span) : Option Node :=
  let declared (property value : List Char) (important : Bool) :=
    Node.declaration (String.ofList (trim property)) (String.ofList (trim value)) important
      (some span)
  match colon.or ((splitAtChar? ':' text).map fun parts => byteLength parts.1) with
  | none => some (declared text [] false)
  | some i => do
    let rest ← slice? (i + 1) (byteLength text) text
    let property ← slice? 0 i text
    match (splitFirst? importantMark rest).map fun parts => byteLength parts.1 with
    | some bang => do
      let value ← slice? 0 bang rest
      return declared property value true
    | none => return declared property rest false

/-- Adds the text up to an offset to the node being read, and moves there. -/
def append? (text : List Char) (r : Reading) (stop : Nat) : Option Reading := do
  let cs ← slice? r.pos stop text
  return { r.append cs with pos := stop }

/-- The number of bytes of the next character, or `none` at the end. -/
def width? (ahead : List Char) : Option Nat :=
  ahead.head?.map Char.utf8Size

/-- A backslash and the character behind it. -/
def escape? (text : List Char) (r : Reading) : Option Reading := do
  let ahead ← slice? (r.pos + 1) (byteLength text) text
  append? text r (r.pos + 1 + (width? ahead).getD 0)

/-- The comment at the offset, if all slices of it can be cut. -/
def comment? (text : List Char) (r : Reading) : Option Reading :=
  let stop := commentStop text (r.pos + 2)
  if hasAt text (r.pos + 2) '!' then do
    let cs ← slice? (r.pos + 2) stop.1 text
    let node := Node.comment (String.ofList cs) (some (r.span r.pos stop.2))
    return { r with licences := node :: r.licences, pos := stop.2 }
  else some { r with pos := stop.2 }

/-- The literal at the offset, likewise. -/
def string? (text : List Char) (r : Reading) (quote : Char) : Option (Except ReadError Reading) :=
  match stringStop text quote (r.pos + 1) with
  | (true, j) => (append? text r (j + 1)).map .ok
  | (false, stop) => do
    let cs ← slice? r.pos stop text
    return .error (.unterminatedString (String.ofList (cs ++ [quote])) (r.span r.pos stop))

/-- The custom property at the offset, likewise. -/
def custom? (text : List Char) (r : Reading) : Option Reading :=
  let stop := customStop text r.pos (r.pos + 2) [] none
  do
    let cs ← slice? r.pos stop.stop text
    let node ← declaration? cs stop.colon (r.span r.pos stop.resume)
    return { (r.attach node).clear with pos := stop.resume }

def semicolon? (r : Reading) : Option Reading :=
  let span := r.span r.currentStart (r.pos + 1)
  if r.readsAtRule then
    some (r.clear.attach (.rule (String.ofList (trimEnd r.text)) [] false (some span)))
  else if (trim r.text).isEmpty then some r.clear
  else (declaration? r.text none span).map r.clear.attach

def finishText? (r : Reading) : Option Reading :=
  let span := r.span r.currentStart r.pos
  if r.current.isEmpty then some r
  else if r.readsAtRule then
    some (r.clear.attach (.rule (String.ofList (trim r.text)) [] false (some span)))
  else (declaration? r.text none span).map r.clear.attach

/-- What a closing brace does; the text in front of it is cut at its colon. -/
def closing? (r : Reading) : Option (Except ReadError Reading) :=
  (finishText? r).map fun r' =>
    match r'.opened with
    | [] => .error (.missingOpeningBrace (r.span r.pos (r.pos + 1)))
    | rule :: outer => .ok ({ r' with opened := outer }.attach (r.closed rule))

/-- Whether the byte at an offset is a blank between pieces. -/
def gapAt (text : List Char) (i : Nat) : Bool :=
  hasAt text i ' ' || hasAt text i '\n' || hasAt text i '\t'

/-- A character that is no mark, with all its bytes. -/
def plain? (text : List Char) (r : Reading) : Option Reading :=
  if r.current.isEmpty && gapAt text r.pos then some (r.advance 1)
  else do
    let ahead ← slice? r.pos (byteLength text) text
    append? text r (r.pos + (width? ahead).getD 1)

/-- One step of the reader, told by the next bytes. -/
def step? (text : List Char) (r : Reading) : Option (Except ReadError Reading) :=
  if hasAt text r.pos '\\' then (escape? text r).map .ok
  else if hasAt text r.pos '/' && hasAt text (r.pos + 1) '*' then (comment? text r).map .ok
  else if hasAt text r.pos '"' || hasAt text r.pos '\'' then
    string? text r (Char.ofUInt8 (byteAt text r.pos))
  else if gapAt text r.pos && gapAt text (r.pos + 1) then some (.ok (r.advance 1))
  else if hasAt text r.pos '\n' then some (.ok (r.pushNewline.advance 1))
  else if hasAt text r.pos '-' && hasAt text (r.pos + 1) '-' && r.current.isEmpty then
    (custom? text r).map .ok
  else if hasAt text r.pos ';' then (semicolon? r).map fun r' => .ok (r'.advance 1)
  else if hasAt text r.pos '{' then some (.ok (r.pushOpening.advance 1))
  else if hasAt text r.pos '}' then (closing? r).map (Except.map (Reading.advance · 1))
  else (plain? text r).map .ok

/-- Reads a text to its end, step by step. -/
def run? (text : List Char) (r : Reading) : Option (Except ReadError Reading) :=
  if r.pos < byteLength text then
    match step? text r with
    | none => none
    | some (.error e) => some (.error e)
    | some (.ok r') => if r.pos < r'.pos then run? text r' else none
  else some (.ok r)
termination_by byteLength text - r.pos

/-- Reads the text of the source with number `file`. -/
def read? (file : Nat) (text : String) : Option (Except ReadError (List Node)) :=
  (run? text.toList { file }).map fun result =>
    match result with
    | .error e => .error e
    | .ok r => r.finish

/-! ## No cut fails -/

lemma byteLength_gap {c : Char} (h : isGap c = true) : byteLength [c] = 1 := by
  rcases isGap_iff.1 h with rfl | rfl | rfl <;> rfl

/-- At the end of the front the loop sees the first character behind it. -/
lemma gapAt_append (a rest : List Char) :
    gapAt (a ++ rest) (byteLength a) = rest.head?.any isGap := by
  simp only [gapAt, hasAt_append a rest (show IsMark ' ' by decide),
    hasAt_append a rest (show IsMark '\n' by decide),
    hasAt_append a rest (show IsMark '\t' by decide)]
  cases rest <;> rfl

lemma gapAt_cons (a rest : List Char) (c : Char) :
    gapAt (a ++ c :: rest) (byteLength a) = isGap c :=
  gapAt_append a (c :: rest)

/-- The parts around the colon of a declaration make up its text, however the colon was found. -/
lemma declaration?_eq {text : List Char} {parts : Option (List Char × List Char)}
    (hparts : ∀ before after, parts = some (before, after) → before ++ ':' :: after = text)
    (span : Span) : declaration? text (parts.map fun parts => byteLength parts.1) span =
      some (declarationOf text (parts.or (splitAtChar? ':' text)) span) := by
  have hsplit : ∀ before after, parts.or (splitAtChar? ':' text) = some (before, after) →
      before ++ ':' :: after = text := by
    intro before after hor
    rcases Option.or_eq_some_iff.1 hor with hparts' | ⟨-, hchar⟩
    · exact hparts before after hparts'
    · exact (splitAtChar?_eq_some hchar).1
  have hcolon : (parts.map fun parts => byteLength parts.1).or
      ((splitAtChar? ':' text).map fun parts => byteLength parts.1) =
        (parts.or (splitAtChar? ':' text)).map fun parts => byteLength parts.1 := by
    cases parts <;> rfl
  unfold declaration?
  rw [hcolon]
  generalize parts.or (splitAtChar? ':' text) = whole at *
  cases whole with
  | none => rfl
  | some whole =>
      obtain ⟨property, value⟩ := whole
      obtain rfl := hsplit property value rfl
      have hvalue : slice? (byteLength property + 1) (byteLength (property ++ ':' :: value))
          (property ++ ':' :: value) = some value := by
        have hback := slice?_back (property ++ [':']) value
        rwa [byteLength_concat, List.append_assoc] at hback
      simp only [Option.map_some, hvalue, slice?_front, declarationOf]
      cases hmark : splitFirst? importantMark value with
      | none => simp [hmark]
      | some found =>
          obtain ⟨before, after⟩ := found
          obtain rfl := splitFirst?_eq_some hmark
          simp [hmark, slice?_front]

/-- The colon is found in the text itself, so it can be cut there. -/
lemma plainDeclaration?_eq (text : List Char) (span : Span) :
    declaration? text none span = some (plainDeclaration text span) :=
  @declaration?_eq text none nofun span

lemma semicolon?_eq (r : Reading) : semicolon? r = some r.pushSemicolon := by
  simp only [semicolon?, Reading.pushSemicolon, plainDeclaration?_eq]
  split_ifs <;> rfl

lemma finishText?_eq (r : Reading) : finishText? r = some r.finishText := by
  simp only [finishText?, Reading.finishText, plainDeclaration?_eq]
  split_ifs <;> rfl

lemma closing?_eq (r : Reading) : closing? r = some r.pushClosing := by
  rw [closing?, finishText?_eq]
  rfl

section
variable {a : List Char} {r : Reading} (hpos : r.pos = byteLength a)
include hpos

/-- What stands between two boundaries is cut out and appended. -/
lemma append?_eq (cs back : List Char) : append? (a ++ (cs ++ back)) r (r.pos + byteLength cs) =
    some ((r.append cs).advance (byteLength cs)) := by
  rw [append?, hpos, slice?_append]
  simp [Reading.append, Reading.advance, hpos]

/-- What is left behind a character of one byte. -/
lemma slice?_behind {c : Char} (hc : c.utf8Size = 1) (rest : List Char) :
    slice? (r.pos + 1) (byteLength (a ++ c :: rest)) (a ++ c :: rest) = some rest := by
  have hback := slice?_back (a ++ [c]) rest
  rwa [byteLength_concat, List.append_assoc, ← hpos, hc] at hback

lemma escape?_eq (rest : List Char) : (escape? (a ++ '\\' :: rest) r).map .ok =
    some (r.push (Piece.escaped rest).1) := by
  rw [escape?, slice?_behind hpos rfl]
  cases rest with
  | nil =>
      have happend : append? (a ++ ['\\']) r (r.pos + 1) = _ := append?_eq hpos ['\\'] []
      simp only [Option.bind_eq_bind, Option.bind_some, width?, List.head?_nil, Option.map_none,
        Option.getD_none, Nat.add_zero, happend]
      rfl
  | cons c rest =>
      have hwidth : r.pos + 1 + c.utf8Size = r.pos + byteLength ['\\', c] := Nat.add_assoc _ _ _
      have happend : append? (a ++ '\\' :: c :: rest) r (r.pos + byteLength ['\\', c]) = _ :=
        append?_eq hpos ['\\', c] rest
      simp only [Option.bind_eq_bind, Option.bind_some, width?, List.head?_cons, Option.map_some,
        Option.getD_some, hwidth, happend]
      rfl

lemma plain?_eq (c : Char) (rest : List Char) : (plain? (a ++ c :: rest) r).map .ok =
    some (r.push (.plain c)) := by
  have hahead : slice? r.pos (byteLength (a ++ c :: rest)) (a ++ c :: rest) = some (c :: rest) := by
    rw [hpos, slice?_back]
  have happend : append? (a ++ c :: rest) r (r.pos + c.utf8Size) =
    some ((r.append [c]).advance c.utf8Size) := append?_eq hpos [c] rest
  rw [plain?, hpos, gapAt_cons, ← hpos, Reading.push]
  simp only [Reading.pushPlain]
  split_ifs with hblank
  · rw [Bool.and_eq_true] at hblank
    have hwidth : (Piece.plain c).width = 1 := byteLength_gap hblank.2
    rw [hwidth]
    rfl
  · rw [hahead]
    simp only [Option.bind_eq_bind, Option.bind_some, width?, List.head?_cons, Option.map_some,
      Option.getD_some, happend]
    rfl

/-- The slices of a comment fall on its delimiters. -/
lemma comment?_eq (rest : List Char) : (comment? (a ++ '/' :: '*' :: rest) r).map .ok =
    some (r.push (.comment (commentBody rest).1 (commentBody rest).2.1)) := by
  have hfront : r.pos + 2 = byteLength (a ++ ['/', '*']) := by
    rw [hpos, byteLength_append]
    rfl
  have htext : a ++ '/' :: '*' :: rest = a ++ ['/', '*'] ++ rest := by simp
  have hbang := (head?_commentBody rest).symm
  have hslice := slice?_append (a ++ ['/', '*']) (commentBody rest).1
    ((if (commentBody rest).2.1 then ['*', '/'] else []) ++ (commentBody rest).2.2)
  rw [commentBody_source] at hslice
  have hwidth : byteLength (a ++ ['/', '*']) + byteLength (commentBody rest).1 +
      (if (commentBody rest).2.1 then 2 else 0) =
        r.pos + (Piece.comment (commentBody rest).1 (commentBody rest).2.1).width := by
    have hends : byteLength (if (commentBody rest).2.1 then ['*', '/'] else []) =
        if (commentBody rest).2.1 then 2 else 0 := by
      cases (commentBody rest).2.1 <;> rfl
    have hsource : (Piece.comment (commentBody rest).1 (commentBody rest).2.1).width =
        2 + byteLength ((commentBody rest).1 ++ if (commentBody rest).2.1 then ['*', '/'] else []) :=
      byteLength_append ['/', '*'] _
    rw [← hfront, hsource, byteLength_append, hends]
    omega
  rw [comment?, hfront, htext, commentStop_append, hasAt_append _ _ (by decide), hslice, hbang,
    hwidth, Reading.push]
  simp only [Reading.pushComment]
  split_ifs <;> rfl

/-- The slices of a literal fall on its quotes, or on the cut. -/
lemma string?_eq {quote : Char} (hquote : quote = '"' ∨ quote = '\'') (rest : List Char) :
    string? (a ++ quote :: rest) r quote =
      some (r.push (Piece.quoted quote (stringBody quote rest))) := by
  have hone : quote.utf8Size = 1 := (isMark_quote hquote).1
  have hstop := stringStop_append hquote (a ++ [quote]) rest
  rw [List.append_assoc, byteLength_concat, ← hpos, hone] at hstop
  have hstop : stringStop (a ++ quote :: rest) quote (r.pos + 1) =
    (stringBody quote rest).stop (r.pos + 1) := hstop
  rw [string?, hstop]
  cases hbody : stringBody quote rest with
  | closed cs rest' =>
      have hwidth : r.pos + 1 + byteLength cs + 1 = r.pos + byteLength (quote :: (cs ++ [quote])) := by
        rw [byteLength, byteLength_concat, hone]
        omega
      have happend := append?_eq hpos (quote :: (cs ++ [quote])) rest'
      have htext : a ++ (quote :: (cs ++ [quote]) ++ rest') = a ++ quote :: rest := by
        simp [← stringBody_source hbody]
      rw [htext, ← hwidth] at happend
      simp only [StringEnd.stop, happend, Piece.quoted, Reading.push, Piece.width, Piece.source,
        Except.map, Option.map_some]
  | cutOff cs =>
      obtain ⟨back, rfl⟩ := stringBody_cutOff hbody
      have hwidth : r.pos + 1 + byteLength cs = r.pos + byteLength (quote :: cs) := by
        rw [byteLength, hone]
        omega
      have hslice : slice? r.pos (r.pos + byteLength (quote :: cs)) (a ++ quote :: (cs ++ back)) =
          some (quote :: cs) := by
        rw [hpos]
        exact slice?_append a (quote :: cs) back
      simp only [StringEnd.stop, hwidth, hslice]
      rfl

/-- The slices of a custom property fall on its hyphens, its colon and its end. -/
lemma custom?_eq (hcurrent : r.current = []) (rest : List Char) :
    (custom? (a ++ '-' :: '-' :: rest) r).map .ok =
      some (r.push (.custom ('-' :: '-' :: (customBody false [] rest).1)
        (customBody false [] rest).2.1)) := by
  have hfront : r.pos + 2 = byteLength (a ++ ['-', '-']) := by
    rw [hpos, byteLength_append]
    rfl
  have htext : a ++ '-' :: '-' :: rest = a ++ ['-', '-'] ++ rest := by simp
  have hstop := customStop_append false [] rest (List.forall_mem_nil _) (a ++ ['-', '-']) r.pos none
  have hsource := customBody_source false [] rest
  rw [scanFrom, if_neg Bool.false_ne_true, ← htext, ← hfront] at hstop
  generalize customBody false [] rest = body at *
  have hcolon : (splitAtColon? false body.1).map (fun parts => r.pos + 2 + byteLength parts.1 - r.pos) =
      (splitAtColon? false ('-' :: '-' :: body.1)).map fun parts => byteLength parts.1 := by
    have hoffset : ∀ cs, r.pos + 2 + byteLength cs - r.pos = byteLength ('-' :: '-' :: cs) := by
      intro cs
      have hlength : byteLength ('-' :: '-' :: cs) = 2 + byteLength cs :=
        byteLength_append ['-', '-'] cs
      omega
    simp [splitAtColon?, hoffset, Function.comp_def]
  have hslice : slice? r.pos (r.pos + 2 + byteLength body.1) (a ++ '-' :: '-' :: rest) =
      some ('-' :: '-' :: body.1) := by
    have hcut := slice?_append a (['-', '-'] ++ body.1) ((if body.2.1 then [';'] else []) ++ body.2.2)
    rw [byteLength_append, ← hpos, ← Nat.add_assoc, List.append_assoc, hsource] at hcut
    exact hcut
  have hwidth : r.pos + 2 + byteLength body.1 + (if body.2.1 then 1 else 0) =
      r.pos + (Piece.custom ('-' :: '-' :: body.1) body.2.1).width := by
    have hends : byteLength (if body.2.1 then [';'] else []) = if body.2.1 then 1 else 0 := by
      cases body.2.1 <;> rfl
    have hlength : (Piece.custom ('-' :: '-' :: body.1) body.2.1).width =
        2 + byteLength (body.1 ++ if body.2.1 then [';'] else []) :=
      byteLength_append ['-', '-'] _
    rw [hlength, byteLength_append, hends]
    omega
  have hclear : ∀ node : Node, (r.attach node).clear = r.attach node := by
    intro node
    rw [Reading.clear, ← hcurrent, ← Reading.attach_current r node]
  simp only [custom?, hstop, hslice, hwidth, hcolon, Option.none_or, Option.bind_eq_bind,
    Option.bind_some, declaration?_eq (fun before after => splitAtColon?_eq_some), hclear]
  simp [Reading.push, Except.map, Reading.advance, customDeclaration]

end

/-- Two blanks in a row, told by two bytes. -/
lemma gapAt_pair (a rest : List Char) (c : Char) :
    (gapAt (a ++ c :: rest) (byteLength a) && gapAt (a ++ c :: rest) (byteLength a + 1)) =
      (isGap c && rest.head?.any isGap) := by
  rw [gapAt_cons]
  by_cases hgap : isGap c = true
  · have hnext := gapAt_append (a ++ [c]) rest
    rw [List.append_assoc, byteLength_append, byteLength_gap hgap] at hnext
    rw [hgap, ← hnext]
    rfl
  · simp [hgap]

/-- Which step is made, told by the next characters. -/
lemma step?_cons {a : List Char} {r : Reading} (hpos : r.pos = byteLength a) (c : Char)
    (rest : List Char) : step? (a ++ c :: rest) r =
      if c = '\\' then (escape? (a ++ c :: rest) r).map .ok
      else if c = '/' && rest.head? == some '*' then (comment? (a ++ c :: rest) r).map .ok
      else if c = '"' || c = '\'' then
        string? (a ++ c :: rest) r (Char.ofUInt8 (byteAt (a ++ c :: rest) r.pos))
      else if isGap c && rest.head?.any isGap then some (.ok (r.advance 1))
      else if c = '\n' then some (.ok (r.pushNewline.advance 1))
      else if c = '-' && rest.head? == some '-' && r.current.isEmpty then
        (custom? (a ++ c :: rest) r).map .ok
      else if c = ';' then (semicolon? r).map fun r' => .ok (r'.advance 1)
      else if c = '{' then some (.ok (r.pushOpening.advance 1))
      else if c = '}' then (closing? r).map (Except.map (Reading.advance · 1))
      else (plain? (a ++ c :: rest) r).map .ok := by
  rw [step?, hpos, hasAt_pair a rest c (by decide) (by decide),
    hasAt_pair a rest c (by decide) (by decide), gapAt_pair]
  simp only [hasAt_cons a rest c (show IsMark '\\' by decide),
    hasAt_cons a rest c (show IsMark '"' by decide),
    hasAt_cons a rest c (show IsMark '\'' by decide),
    hasAt_cons a rest c (show IsMark '\n' by decide),
    hasAt_cons a rest c (show IsMark ';' by decide),
    hasAt_cons a rest c (show IsMark '{' by decide),
    hasAt_cons a rest c (show IsMark '}' by decide), decide_eq_true_eq]

/-- At the beginning of a character, a step does what the next piece asks for; no cut fails. -/
lemma step?_eq {a : List Char} {r : Reading} (hpos : r.pos = byteLength a) (c : Char)
    (rest : List Char) : step? (a ++ c :: rest) r =
      some (r.push (Piece.next r.current.isEmpty c rest).1) := by
  rw [step?_cons hpos]
  fun_cases Piece.next r.current.isEmpty c rest with
  | case1 hesc =>
      subst hesc
      rw [if_pos rfl, escape?_eq hpos]
  | case2 hesc hcomment body =>
      rw [if_neg hesc, if_pos hcomment]
      rw [Bool.and_eq_true, decide_eq_true_eq] at hcomment
      obtain ⟨rfl, hstar⟩ := hcomment
      obtain ⟨rest, rfl⟩ : ∃ tail, rest = '*' :: tail := ⟨_, Piece.head?_eq_some_of_beq hstar⟩
      rw [comment?_eq hpos]
      rfl
  | case3 hesc hcomment hquote body =>
      rw [if_neg hesc, if_neg hcomment, if_pos hquote]
      rw [Bool.or_eq_true, decide_eq_true_eq, decide_eq_true_eq] at hquote
      rw [hpos, ofUInt8_byteAt a rest (isMark_quote hquote).1, string?_eq hpos hquote]
  | case4 hesc hcomment hquote hgap =>
      rw [if_neg hesc, if_neg hcomment, if_neg hquote, if_pos hgap]
      rw [Bool.and_eq_true] at hgap
      have hwidth : (Piece.gap c).width = 1 := byteLength_gap hgap.1
      rw [Reading.push, hwidth]
      rfl
  | case5 hesc hcomment hquote hgap hline =>
      rw [if_neg hesc, if_neg hcomment, if_neg hquote, if_neg hgap, if_pos hline]
      rfl
  | case6 hesc hcomment hquote hgap hline hcustom body =>
      rw [if_neg hesc, if_neg hcomment, if_neg hquote, if_neg hgap, if_neg hline, if_pos hcustom]
      rw [Bool.and_eq_true, Bool.and_eq_true, decide_eq_true_eq] at hcustom
      obtain ⟨⟨rfl, hdash⟩, hfresh⟩ := hcustom
      obtain ⟨rest, rfl⟩ : ∃ tail, rest = '-' :: tail := ⟨_, Piece.head?_eq_some_of_beq hdash⟩
      rw [custom?_eq hpos (List.isEmpty_iff.1 hfresh)]
      rfl
  | case7 hesc hcomment hquote hgap hline hcustom hsemi =>
      rw [if_neg hesc, if_neg hcomment, if_neg hquote, if_neg hgap, if_neg hline, if_neg hcustom,
        if_pos hsemi, semicolon?_eq]
      rfl
  | case8 hesc hcomment hquote hgap hline hcustom hsemi hopen =>
      rw [if_neg hesc, if_neg hcomment, if_neg hquote, if_neg hgap, if_neg hline, if_neg hcustom,
        if_neg hsemi, if_pos hopen]
      rfl
  | case9 hesc hcomment hquote hgap hline hcustom hsemi hopen hclose =>
      rw [if_neg hesc, if_neg hcomment, if_neg hquote, if_neg hgap, if_neg hline, if_neg hcustom,
        if_neg hsemi, if_neg hopen, if_pos hclose, closing?_eq]
      rfl
  | case10 hesc hcomment hquote hgap hline hcustom hsemi hopen hclose =>
      rw [if_neg hesc, if_neg hcomment, if_neg hquote, if_neg hgap, if_neg hline, if_neg hcustom,
        if_neg hsemi, if_neg hopen, if_neg hclose, plain?_eq hpos]

/-! ## The run -/

/-- From a boundary on, no slice fails, and the checked run is the plain one. -/
lemma run?_eq {text front cs : List Char} {r : Reading} (htext : front ++ cs = text)
    (hpos : r.pos = byteLength front) : run? text r = some (r.run cs) := by
  fun_induction Reading.run r cs generalizing front with
  | case1 r =>
      subst htext
      rw [run?, hpos, List.append_nil, if_neg (Nat.lt_irrefl _)]
  | case2 r c rest step e =>
      have herror : r.push step.1 = .error e := ‹_›
      subst htext
      rw [run?, if_pos (hpos ▸ lt_byteLength front c rest), step?_eq hpos, herror]
  | case3 r c rest step next =>
      rename_i hok ih
      have htaken : Reading.Taken r step.1 (c :: rest) step.2 := Reading.taken_of_push rfl hok
      have hplace := (Reading.push_movesPast hok).pos
      have hsource : front ++ step.1.source ++ step.2 = text := by
        rw [List.append_assoc, htaken.source, htext]
      have hrun := ih hsource (by rw [hplace, hpos, byteLength_append, Piece.width])
      have hmoves : r.pos < next.pos := by
        have := htaken.width_pos
        omega
      subst htext
      rw [run?, if_pos (hpos ▸ lt_byteLength front c rest), step?_eq hpos, hok]
      simp only [if_pos hmoves, hrun]

/-- The checked reader reads what the reader does. -/
theorem read?_eq (file : Nat) (text : String) : read? file text = some (readStylesheet file text) := by
  rw [read?, run?_eq (List.nil_append _) rfl]
  rfl

/-- The readings between two steps. -/
inductive Head (file : Nat) (text : List Char) : Reading → Prop
  | start : Head file text { file }
  | step {r r' : Reading} (hhead : Head file text r) (hlt : r.pos < byteLength text)
      (hstep : step? text r = some (.ok r')) : Head file text r'

/-- The reader stands at a boundary; as long as there is text, a step is possible, and one that does
not end in an error moves on inside the text. -/
structure Moves (text : List Char) (r : Reading) : Prop where
  boundary : IsBoundary text r.pos
  step : r.pos < byteLength text → ∃ result, step? text r = some result ∧
    ∀ r', result = .ok r' → r.pos < r'.pos ∧ r'.pos ≤ byteLength text

/-- The step: from a boundary the reader gets to a boundary further on. -/
lemma step?_of_isBoundary {text : List Char} {r : Reading} (h : IsBoundary text r.pos)
    (hlt : r.pos < byteLength text) : ∃ result, step? text r = some result ∧
      ∀ r', result = .ok r' → r.pos < r'.pos ∧ IsBoundary text r'.pos := by
  obtain ⟨front, back, rfl, hpos⟩ := isBoundary_iff.1 h
  cases back with
  | nil =>
      rw [List.append_nil] at hlt
      omega
  | cons c rest =>
      refine ⟨_, step?_eq hpos.symm c rest, fun r' hpush => ?_⟩
      have hwidth := (Reading.taken_of_push rfl hpush).width_pos
      rw [(Reading.push_movesPast hpush).pos]
      exact ⟨Nat.lt_add_of_pos_right hwidth, Reading.isBoundary_behind rfl hpos.symm⟩

/-- The run: every reading between two steps stands at a boundary. -/
lemma Head.isBoundary {file : Nat} {text : List Char} {r : Reading} (h : Head file text r) :
    IsBoundary text r.pos := by
  induction h with
  | start => exact isBoundary_append [] text
  | step hhead hlt hstep ih =>
      obtain ⟨result, hresult, hmoves⟩ := step?_of_isBoundary ih hlt
      rw [hstep, Option.some.injEq] at hresult
      exact (hmoves _ hresult.symm).2

lemma Head.moves {file : Nat} {text : List Char} {r : Reading} (h : Head file text r) :
    Moves text r where
  boundary := h.isBoundary
  step := by
    intro hlt
    obtain ⟨result, hresult, hmoves⟩ := step?_of_isBoundary h.isBoundary hlt
    exact ⟨result, hresult, fun r' hok => ⟨(hmoves r' hok).1, (hmoves r' hok).2.le⟩⟩

end Checked

/-- Reading breaks down nowhere and comes to an end.  Every cut of the checked reader succeeds, and
it reads what the reader does; every step begins at a boundary and moves on inside the text.  In a
source shorter than `Span.offsetBound`, the span of every node at any depth, or that of the error,
can be cut out. -/
theorem readStylesheet_checked (file : Nat) (text : String) :
    Checked.read? file text = some (readStylesheet file text) ∧
      (∀ r, Checked.Head file text.toList r → Checked.Moves text.toList r) ∧
      (text.utf8ByteSize < Span.offsetBound →
        match readStylesheet file text with
        | .ok nodes => ∀ visit ∈ Node.visitsAll 0 nodes, Located file text.toList visit.2.span
        | .error e => e.span.Within file text.toList) := by
  refine ⟨Checked.read?_eq file text, fun r hhead => hhead.moves, fun hsize => ?_⟩
  cases hread : readStylesheet file text with
  | ok nodes => exact (located_of_readStylesheet hsize hread).visitsAll 0
  | error e => exact within_of_readStylesheet hsize hread

namespace Sample

/-- A backslash in front of a character of two bytes, in a comment, in a custom property and in a
literal, which is then cut off behind another backslash. -/
def cutOff : String := "/*\\é*/--é:\\é;.a\x7bb:\"\\é\\"

end Sample

theorem readStylesheet_checked_cutOff :
    Sample.cutOff.utf8ByteSize < Span.offsetBound ∧
      Checked.read? 1 Sample.cutOff =
        some (.error (.unterminatedString "\"\\é\\\"" ⟨1, 21, 26⟩)) ∧
      (Text.slice? 21 26 Sample.cutOff.toList).isSome = true := by
  have hsize : Sample.cutOff.utf8ByteSize < Span.offsetBound := by decide
  have hread : readStylesheet 1 Sample.cutOff =
      .error (.unterminatedString "\"\\é\\\"" ⟨1, 21, 26⟩) := by
    with_unfolding_all rfl
  obtain ⟨hchecked, -, hspans⟩ := readStylesheet_checked 1 Sample.cutOff
  rw [hread] at hchecked hspans
  exact ⟨hsize, hchecked, (hspans hsize).slice⟩

end UtilityCss
