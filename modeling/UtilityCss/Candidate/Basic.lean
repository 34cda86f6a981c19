import UtilityCss.Text.Search

/-!
# Candidates

A candidate is a word found in content that may be a class name, such as `md:hover:bg-[#fff]`.  It
consists of variants, each followed by the separator, and a base.  What stands in square brackets is
an arbitrary value: separators inside it do not count.

* `Candidate.split` — the variants and the base.
* `Candidate.always` — the candidate that belongs to every build, whatever the content is.
* `Candidate.keepGoing` — a word that an extractor may answer but that is no candidate.
-/

namespace UtilityCss.Candidate

/-- The candidate whose rules do not depend on content. -/
def always : String := "*"

/-- The word that stands for nothing in the answer of an extractor. -/
def keepGoing : String := "!*"

/-- The parts of a text between the separators `first :: others` that stand outside brackets: all
but the last, and the last.  The part being read is held back to front; `depth` counts the brackets
open in it. -/
def splitFrom (first : Char) (others : List Char) (depth : Nat) (part : List Char) :
    List Char → List (List Char) × List Char
  | [] => ([], part.reverse)
  | c :: rest =>
    if c = '[' then splitFrom first others (depth + 1) (c :: part) rest
    else if c = ']' then splitFrom first others (depth - 1) (c :: part) rest
    else if depth = 0 ∧ c = first then
      match _h : Text.cutLead? others rest with
      | some after =>
        let (parts, last) := splitFrom first others 0 [] after
        (part.reverse :: parts, last)
      | none => splitFrom first others depth (c :: part) rest
    else splitFrom first others depth (c :: part) rest
termination_by cs => cs.length
decreasing_by
  all_goals simp only [List.length_cons]
  all_goals first
    | omega
    | have := Text.length_le_of_cutLead? _h; omega

/-- The variants of a candidate and its base.  Without a separator the whole candidate is the
base. -/
def split (separator candidate : String) : List String × String :=
  match separator.toList with
  | [] => ([], candidate)
  | first :: others =>
    let (parts, last) := splitFrom first others 0 [] candidate.toList
    (parts.map String.ofList, String.ofList last)

end UtilityCss.Candidate
