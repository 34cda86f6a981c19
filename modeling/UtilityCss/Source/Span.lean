/-!
# Spans

A span is a byte range of one source text: `start` inclusive, `stop` exclusive.  Offsets are
32-bit words, so `Span.ofRange` keeps an offset modulo `2 ^ 32`; sources shorter than that are
covered exactly.  Nodes that were generated rather than read have no span, and a diagnostic
without a place in any source carries `Span.nowhere`.
-/

namespace UtilityCss

/-- A byte range of the source with number `file`. -/
structure Span where
  file : Nat
  /-- Offset of the first byte. -/
  start : Nat
  /-- Offset behind the last byte. -/
  stop : Nat
  deriving DecidableEq, Repr, Inhabited

namespace Span

/-- How many different offsets a span can hold. -/
def offsetBound : Nat := 4294967296

/-- The file number that no source has. -/
def noFile : Nat := 4294967295

/-- The span of a diagnostic that points at no source. -/
def nowhere : Span := ⟨noFile, 0, 0⟩

/-- The span between two offsets, each kept as a 32-bit word. -/
def ofRange (file start stop : Nat) : Span :=
  ⟨file, start % offsetBound, stop % offsetBound⟩

/-- The number of bytes covered, as a 32-bit difference. -/
def length (s : Span) : Nat :=
  (s.stop + offsetBound - s.start) % offsetBound

def isEmpty (s : Span) : Bool := s.start == s.stop

def isNowhere (s : Span) : Bool := s.file == noFile

end Span

end UtilityCss
