import UtilityCss.Rule.Layer
import UtilityCss.Table

/-!
# Generated rules from build to build

A `RuleCache` holds the fragments of every candidate it was ever asked for, and the sheet made of
them.  It only grows, so the number of its candidates tells whether the sheet is out of date:
`generate` makes a new one only if there are more candidates than when it was made.

The sheet has the fragments in the order of their candidates, not in the order in which the
candidates were found.
-/

namespace UtilityCss

/-- Answers the fragments of a candidate. -/
abbrev Resolver := String → List Fragment

/-- The candidates that were resolved, and the sheet made of them. -/
structure RuleCache where
  classified : Table (List Fragment)
  /-- The sheet made last. -/
  snapshot : Option Sheet
  /-- The number of candidates when the sheet was made. -/
  partitionedAt : Nat

namespace RuleCache

def empty : RuleCache := ⟨.empty, none, 0⟩

/-- The candidates of a list that the cache does not know, ascending. -/
def pending (cache : RuleCache) (candidates : List String) : List String :=
  (Names.sorted candidates).filter fun candidate => !cache.classified.contains candidate

/-- Adds the fragments of the candidates that are not known. -/
def classify (cache : RuleCache) (resolve : Resolver) (candidates : List String) : RuleCache :=
  { cache with
    classified := (cache.pending candidates).foldl
      (fun known candidate => known.insert candidate (resolve candidate)) cache.classified }

/-- The sheet of all candidates. -/
def partition (cache : RuleCache) : Sheet :=
  ⟨cache.classified.entries.flatMap Prod.snd⟩

/-- The sheet made last, if no candidate was added since. -/
def current? (cache : RuleCache) : Option Sheet :=
  if cache.partitionedAt = cache.classified.size then cache.snapshot else none

/-- The sheet of all candidates that the cache was asked for, these included. -/
def generate (cache : RuleCache) (resolve : Resolver) (candidates : List String) :
    Sheet × RuleCache :=
  let cache := cache.classify resolve candidates
  match cache.current? with
  | some sheet => (sheet, cache)
  | none =>
    let sheet := cache.partition
    (sheet, { cache with snapshot := some sheet, partitionedAt := cache.classified.size })

end RuleCache

end UtilityCss
