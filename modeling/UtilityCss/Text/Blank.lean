/-!
# Blank characters

Texts are trimmed, cut into words and cut into lines in several places: selectors and values of a
stylesheet, `@apply` lists, lines of content files, templates of the settings.  All of them mean
the same thing by *blank*, the `White_Space` property of Unicode, so the class and the operations
that rest on it stand here once.

* **The class** — `isBlank`, the twenty-five characters of `White_Space`.
* **Trimming** — `trimStart`, `trimEnd`, `trim` on lists of characters, `trimmed` on strings.
* **Cutting** — `words` at runs of blanks, `lines` at every newline.
-/

namespace UtilityCss.Text

/-- The characters with the Unicode property `White_Space`. -/
def isBlank (c : Char) : Bool :=
  let n := c.toNat
  (0x09 ≤ n && n ≤ 0x0D) || n == 0x20 || n == 0x85 || n == 0xA0 || n == 0x1680 ||
    (0x2000 ≤ n && n ≤ 0x200A) || n == 0x2028 || n == 0x2029 || n == 0x202F || n == 0x205F ||
    n == 0x3000

/-! ## Trimming -/

/-- A text without its leading blanks. -/
def trimStart (cs : List Char) : List Char :=
  cs.dropWhile isBlank

/-- A text without its trailing blanks. -/
def trimEnd (cs : List Char) : List Char :=
  (cs.reverse.dropWhile isBlank).reverse

/-- A text without its leading and trailing blanks. -/
def trim (cs : List Char) : List Char :=
  trimEnd (trimStart cs)

def trimmed (s : String) : String :=
  String.ofList (trim s.toList)

/-! ## Cutting into words and lines -/

/-- The words of a text, the one being read held back to front in `word`. -/
def wordsFrom (word : List Char) : List Char → List String
  | [] => if word.isEmpty then [] else [String.ofList word.reverse]
  | c :: rest =>
    if isBlank c then
      if word.isEmpty then wordsFrom [] rest
      else String.ofList word.reverse :: wordsFrom [] rest
    else wordsFrom (c :: word) rest

/-- The maximal runs of characters that are not blank, in order. -/
def words (s : String) : List String :=
  wordsFrom [] s.toList

/-- The pieces of a text between newlines; a text without one is a single line. -/
def lines (s : String) : List String :=
  (s.toList.splitOn '\n').map String.ofList

end UtilityCss.Text
