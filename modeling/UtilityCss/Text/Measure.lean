/-!
# Byte offsets in texts

Positions in a stylesheet are offsets into its UTF-8 form, while the scanners walk over
characters.  This module connects the two: `byteLength` measures a list of characters, and
`splitAtByte?` cuts a text at a byte offset.  An offset past the end of the text, or one inside a
character, is no place to cut, and the answer is `none`.
-/

namespace UtilityCss.Text

/-- The number of bytes of a text in UTF-8. -/
def byteLength : List Char → Nat
  | [] => 0
  | c :: rest => c.utf8Size + byteLength rest

/-- The text before and after a byte offset that falls between two characters. -/
def splitAtByte? : Nat → List Char → Option (List Char × List Char)
  | 0, cs => some ([], cs)
  | _ + 1, [] => none
  | n + 1, c :: cs =>
    if c.utf8Size ≤ n + 1 then
      (splitAtByte? (n + 1 - c.utf8Size) cs).map fun (before, after) => (c :: before, after)
    else none

/-- The text between two byte offsets, if both fall between characters and are in order. -/
def slice? (start stop : Nat) (cs : List Char) : Option (List Char) :=
  if start ≤ stop then do
    let (before, _) ← splitAtByte? stop cs
    let (_, middle) ← splitAtByte? start before
    return middle
  else none

end UtilityCss.Text
