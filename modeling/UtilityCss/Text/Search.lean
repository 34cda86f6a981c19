/-!
# Searching in texts

Occurrences of one text in another, and replacement of single characters.

* `cutLead?` — what follows a given beginning.
* `splitFirst?` — what stands before and after the first occurrence of a text.
* `replaceChar` — every occurrence of a character replaced by a text.
* `unifyNewlines` — one spelling for the ends of lines.
-/

namespace UtilityCss.Text

/-- What follows `lead` in a text that begins with it. -/
def cutLead? : (lead cs : List Char) → Option (List Char)
  | [], cs => some cs
  | _ :: _, [] => none
  | l :: lead, c :: cs => if l = c then cutLead? lead cs else none

/-- `cutLead?` finds exactly what makes up the text together with its beginning. -/
theorem cutLead?_eq_some_iff {lead cs rest : List Char} :
    cutLead? lead cs = some rest ↔ lead ++ rest = cs := by
  induction lead generalizing cs with
  | nil => simp [cutLead?, eq_comm]
  | cons l lead ih =>
    cases cs with
    | nil => simp [cutLead?]
    | cons c cs =>
      by_cases h : l = c
      · simp [cutLead?, h, ih]
      · simp [cutLead?, h]

/-- What follows a beginning is not longer than the text. -/
theorem length_le_of_cutLead? {lead cs rest : List Char} (h : cutLead? lead cs = some rest) :
    rest.length ≤ cs.length := by
  rw [← cutLead?_eq_some_iff.1 h, List.length_append]
  omega

/-- The parts before and after the first occurrence of `needle`. -/
def splitFirst? (needle : List Char) : List Char → Option (List Char × List Char)
  | [] => (cutLead? needle []).map (([], ·))
  | c :: cs =>
    match cutLead? needle (c :: cs) with
    | some rest => some ([], rest)
    | none => (splitFirst? needle cs).map fun (before, after) => (c :: before, after)

/-- Every `c` of a text replaced by the text `new`. -/
def replaceChar (c : Char) (new : List Char) (cs : List Char) : List Char :=
  cs.flatMap fun d => if d = c then new else [d]

/-- Every `\r\n` written as `\n`; a carriage return that stands alone is kept. -/
def unifyNewlines : List Char → List Char
  | '\r' :: '\n' :: rest => '\n' :: unifyNewlines rest
  | c :: rest => c :: unifyNewlines rest
  | [] => []

end UtilityCss.Text
