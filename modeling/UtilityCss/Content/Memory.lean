import UtilityCss.Digest
import UtilityCss.Files.Path
import UtilityCss.Table

/-!
# What is remembered between scans

Content changes little from one build to the next, so two things are kept.

* **Lines** — `LineMemory` keeps the candidates of lines that were read before, apart for each
  extractor.  What stays when it is full is decided by `retain`; `LineMemory.bounded` keeps the
  newest lines of each extractor.
* **Files** — `Tracker` keeps the digest that the text of a file had when it was last scanned.  Two
  spellings of a path are one file.
-/

namespace UtilityCss

/-! ## Lines -/

/-- The candidates of a line. -/
structure KnownLine where
  key : String
  line : String
  /-- Its candidates, ascending. -/
  found : List String
  deriving DecidableEq, Repr

/-- Lines that were read before. -/
structure LineMemory where
  /-- The lines, newest first. -/
  known : List KnownLine
  /-- What stays of the lines when one was added. -/
  retain : List KnownLine → List KnownLine

namespace LineMemory

/-- All lines but those of one extractor behind its first `n`. -/
def keepFirst (key : String) : (n : Nat) → List KnownLine → List KnownLine
  | _, [] => []
  | n, entry :: rest =>
    if entry.key = key then
      match n with
      | 0 => keepFirst key 0 rest
      | n + 1 => entry :: keepFirst key n rest
    else entry :: keepFirst key n rest

/-- The lines that stay if each extractor has room for `capacity` of them. -/
def keepNewest (capacity : Nat) (known : List KnownLine) : List KnownLine :=
  if known.length ≤ capacity then known
  else
    match known with
    | [] => []
    | entry :: rest => keepFirst entry.key capacity (entry :: rest)

/-- An empty memory with room for `capacity` lines of each extractor. -/
def bounded (capacity : Nat) : LineMemory := ⟨[], keepNewest capacity⟩

/-- The candidates of a line that an extractor read before. -/
def lookup? (m : LineMemory) (key line : String) : Option (List String) :=
  (m.known.find? fun entry => entry.line = line ∧ entry.key = key).map KnownLine.found

/-- Keeps the candidates of a line. -/
def remember (m : LineMemory) (key line : String) (found : List String) : LineMemory :=
  { m with known := m.retain (⟨key, line, found⟩ :: m.known) }

end LineMemory

/-! ## Files -/

/-- The digests of the files that were scanned. -/
structure Tracker where
  /-- The parts of each path with the digest of its text. -/
  digests : List (List String × Digest)

namespace Tracker

def empty : Tracker := ⟨[]⟩

/-- The digest of a text, unless it is the one recorded for the path. -/
def change? (t : Tracker) (path text : String) : Option Digest :=
  let digest := Digest.ofText text
  if t.digests.lookup (Path.parts path) = some digest then none else some digest

/-- Records the digest of a file in place of an earlier one. -/
def record (t : Tracker) (path : String) (digest : Digest) : Tracker :=
  let key := Path.parts path
  ⟨(key, digest) :: t.digests.filter fun (other, _) => other != key⟩

def size (t : Tracker) : Nat := t.digests.length

end Tracker

end UtilityCss
