import UtilityCss.Text.Blank
import UtilityCss.Text.Measure
import UtilityCss.Text.Search
import UtilityCss.Source.Span

/-!
# Source texts

A source is a named text whose line ends are spelled `\n`, so that the byte offsets of spans index
straight into it.  Two questions are asked about an offset:

* `lineCol` — its line and column, both counted from one, found by binary search in the table of
  line starts that is built when the source is made;
* `lineText?` — the text of its line, found by looking backwards and forwards from the offset
  itself.  An offset inside a character has no line text.

A `Library` numbers the sources of a run in the order they were added.
-/

namespace UtilityCss

/-- A named text with an index of its lines. -/
structure SourceText where
  /-- Where the text came from, as shown to the user. -/
  path : String
  /-- The text, with `\n` at the end of each line. -/
  content : String
  /-- Byte offset of the beginning of each line, in order. -/
  lineStarts : Array Nat

namespace SourceText

/-- The offsets behind each newline of a text that begins at `offset`. -/
def startsBehindNewlines (offset : Nat) : List Char → List Nat
  | [] => []
  | c :: rest =>
    let next := offset + c.utf8Size
    if c = '\n' then next :: startsBehindNewlines next rest else startsBehindNewlines next rest

/-- A source made from a text as it was read. -/
def make (path text : String) : SourceText :=
  let content := Text.unifyNewlines text.toList
  { path
    content := String.ofList content
    lineStarts := (0 :: startsBehindNewlines 0 content).toArray }

/-- The last index in `[lo, hi)` whose entry is at most `offset`, given that `lo` is one. -/
def lastAtMost (starts : Array Nat) (offset lo hi : Nat) : Nat :=
  if lo + 1 < hi then
    let mid := (lo + hi) / 2
    if starts.getD mid 0 ≤ offset then lastAtMost starts offset mid hi
    else lastAtMost starts offset lo mid
  else lo
termination_by hi - lo

/-- The line and column of a byte offset, both counted from one; columns count bytes and, like
offsets, are 32-bit words. -/
def lineCol (s : SourceText) (offset : Nat) : Nat × Nat :=
  let line := lastAtMost s.lineStarts offset 0 s.lineStarts.size
  (line + 1, (offset - s.lineStarts.getD line 0 + 1) % Span.offsetBound)

/-- The text of the line that holds a byte offset, without its newline.  Offsets past the end
belong to the last line. -/
def lineText? (s : SourceText) (offset : Nat) : Option String := do
  let cs := s.content.toList
  let (before, after) ← Text.splitAtByte? (min offset (Text.byteLength cs)) cs
  let head := (before.reverse.takeWhile (· != '\n')).reverse
  return String.ofList (head ++ after.takeWhile (· != '\n'))

def snippet? (s : SourceText) (start stop : Nat) : Option String :=
  (Text.slice? start stop s.content.toList).map String.ofList

end SourceText

/-- The sources of a run, numbered in the order they were added. -/
structure Library where
  /-- The sources, the one with number zero first. -/
  sources : Array SourceText

namespace Library

def empty : Library := ⟨#[]⟩

/-- Adds a text under a name and answers its number. -/
def add (lib : Library) (path text : String) : Library × Nat :=
  (⟨lib.sources.push (SourceText.make path text)⟩, lib.sources.size)

def get? (lib : Library) (file : Nat) : Option SourceText :=
  lib.sources[file]?

/-- The text under a span, if the span lies between characters of a known source. -/
def snippet? (lib : Library) (span : Span) : Option String := do
  let source ← lib.get? span.file
  source.snippet? span.start span.stop

end Library

/-- A span with its place in words: the source's path, and where the span begins and ends. -/
structure Place where
  path : String
  /-- Line and column of the first byte. -/
  start : Nat × Nat
  /-- Line and column of the last byte. -/
  stop : Nat × Nat

/-- The place of a span in a library that knows its source. -/
def Library.place? (lib : Library) (span : Span) : Option Place := do
  let source ← lib.get? span.file
  return {
    path := source.path
    start := source.lineCol span.start
    stop := source.lineCol (max (span.stop - 1) span.start) }

/-- A place as it is shown: path, line and column of its beginning. -/
def Place.display (p : Place) : String :=
  p.path ++ ":" ++ toString p.start.1 ++ ":" ++ toString p.start.2

end UtilityCss
