import UtilityCss.Text.Blank

/-!
# Finding candidates in a line

A line of content is cut into words at blanks, quotes and the punctuation of markup.  Inside square
brackets and parentheses nothing cuts, since an arbitrary value may hold anything; a backslash takes
the next character into the word as it is.  Of the words, those that could be class names are the
candidates of the line.

Both depths are counted for the whole line, and a closing bracket without an opening one does not
count.
-/

namespace UtilityCss.Candidate

def isDelimiter (c : Char) : Bool :=
  Text.isBlank c || c ∈ ['"', '\'', '\x60', '<', '>', '=', '{', '}', ';', ',']

/-- The depth of square brackets behind a character. -/
def bracketDepth (depth : Nat) (c : Char) : Nat :=
  if c = '[' then depth + 1 else if c = ']' then depth - 1 else depth

/-- The depth of parentheses behind a character. -/
def parenDepth (depth : Nat) (c : Char) : Nat :=
  if c = '(' then depth + 1 else if c = ')' then depth - 1 else depth

/-- A word that was held back to front, unless it is empty. -/
def finishWord (word : List Char) : List (List Char) :=
  if word.isEmpty then [] else [word.reverse]

/-- The words of the rest of a line.  The word being read is held back to front. -/
def wordsFrom (brackets parens : Nat) (word : List Char) : List Char → List (List Char)
  | [] => finishWord word
  | ['\\'] => finishWord word
  | '\\' :: c :: rest => wordsFrom brackets parens (c :: word) rest
  | c :: rest =>
    let brackets := bracketDepth brackets c
    let parens := parenDepth parens c
    if brackets == 0 && parens == 0 && isDelimiter c then
      finishWord word ++ wordsFrom brackets parens [] rest
    else wordsFrom brackets parens (c :: word) rest

def isCandidateChar (c : Char) : Bool :=
  c.isAlphanum ||
    c ∈ ['-', '_', '/', ':', '.', ',', '%', '#', '[', ']', '(', ')', '!', '&', '>', '+', '*']

/-- Whether a word could be a class name: it has a letter or a bracket, only characters of class
names, and does not end in a colon. -/
def isPlausible (word : List Char) : Bool :=
  word.getLast? != some ':' && word.any (fun c => c.isAlpha || c == '[') &&
    word.all isCandidateChar

/-- The candidates of a line in the order they stand there. -/
def extract (line : String) : List String :=
  ((wordsFrom 0 0 [] line.toList).filter isPlausible).map String.ofList

end UtilityCss.Candidate
