import UtilityCss.Diagnostic.Basic

/-!
# Collecting diagnostics

A `Sink` holds the diagnostics of a run until they are taken out.  Two things outlive a drain: the
number of errors ever emitted, and the keys of warnings that are to be said once only.
-/

namespace UtilityCss

/-- Diagnostics emitted and not yet taken out. -/
structure Sink where
  /-- The diagnostics held, oldest first. -/
  held : List Diagnostic := []
  keys : List String := []
  /-- Number of errors ever emitted. -/
  errors : Nat := 0

namespace Sink

def empty : Sink := {}

def emit (s : Sink) (d : Diagnostic) : Sink :=
  { s with
    held := s.held ++ [d]
    errors := if d.severity = .error then s.errors + 1 else s.errors }

def hasKey (s : Sink) (key : String) : Bool :=
  s.keys.contains key

/-- Adds a diagnostic unless its key was used before. -/
def emitOnce (s : Sink) (key : String) (d : Diagnostic) : Sink :=
  if s.hasKey key then s else { s with keys := key :: s.keys }.emit d

/-- Takes out all diagnostics held. -/
def drain (s : Sink) : List Diagnostic × Sink :=
  (s.held, { s with held := [] })

/-- Whether an error was ever emitted. -/
def hasErrors (s : Sink) : Bool :=
  0 < s.errors

def warnings (s : Sink) : Nat :=
  s.held.countP fun d => d.severity = .warning

end Sink

end UtilityCss
