import UtilityCss.Text.Blank

/-!
# TOML texts and blanks

The lexical level of a document: blanks, comments, ends of lines, and the four kinds of string.
Readers take a list of characters and answer what they found with the characters left, or nothing
if the text does not fit.

* **Blanks** — `dropBlanks`, `lineEnd?`, `skipTrivia?`.
* **Strings on one line** — `basicBody?` with escapes, `literalBody?` without.
* **Strings over several lines** — `longBasicBody?`, `longLiteralBody?`.  Both may hold one or
  two quotes in a row, also directly before the closing three.
* **Strings of any kind** — `string?`.
-/

namespace UtilityCss.Toml

/-! ## Blanks and lines -/

/-- Blanks inside a line. -/
def isLineBlank (c : Char) : Bool := c == ' ' || c == '\t'

/-- A text without the blanks in front. -/
def dropBlanks (cs : List Char) : List Char := cs.dropWhile isLineBlank

/-- Characters that may stand in comments: all but control characters, of which only tab may. -/
def isCommentChar (c : Char) : Bool :=
  c == '\t' || (0x20 ≤ c.toNat && c.toNat != 0x7F)

/-- What follows a comment, if one stands in front. -/
def dropComment : List Char → List Char
  | '#' :: rest => rest.dropWhile isCommentChar
  | cs => cs

/-- What follows the end of a line, which the end of the document is too. -/
def newline? : List Char → Option (List Char)
  | [] => some []
  | '\n' :: rest => some rest
  | '\r' :: '\n' :: rest => some rest
  | _ => none

/-- What follows the rest of a line that may hold blanks and a comment only. -/
def lineEnd? (cs : List Char) : Option (List Char) :=
  newline? (dropComment (dropBlanks cs))

/-- What follows blanks, ends of lines and comments.  A comment has to end in front of the end of
the document. -/
def skipTrivia? : (inComment : Bool) → List Char → Option (List Char)
  | true, [] => none
  | false, [] => some []
  | _, '\n' :: rest => skipTrivia? false rest
  | _, '\r' :: '\n' :: rest => skipTrivia? false rest
  | true, c :: rest => if isCommentChar c then skipTrivia? true rest else none
  | false, c :: rest =>
    if isLineBlank c then skipTrivia? false rest
    else if c == '#' then skipTrivia? true rest
    else some (c :: rest)

/-! ## Escapes -/

/-- Where a reader stands in a string with escapes. -/
inductive Escape where
  /-- Outside of escapes. -/
  | outside
  /-- Behind a backslash. -/
  | begun
  /-- In a code point with digits still to come. -/
  | digits (left value : Nat)
  /-- Behind a backslash that hides the blanks up to the next text; `true` once a line has ended. -/
  | fold (ended : Bool)
  deriving DecidableEq, Repr

def hexValue? (c : Char) : Option Nat :=
  if '0' ≤ c && c ≤ '9' then some (c.toNat - '0'.toNat)
  else if 'a' ≤ c && c ≤ 'f' then some (c.toNat - 'a'.toNat + 10)
  else if 'A' ≤ c && c ≤ 'F' then some (c.toNat - 'A'.toNat + 10)
  else none

/-- The character with a code point, if there is one. -/
def scalar? (n : Nat) : Option Char :=
  if n.isValidChar then some (Char.ofNat n) else none

/-- The characters that a backslash and one letter stand for. -/
def shortEscape? : Char → Option Char
  | 'b' => some '\x08'
  | 't' => some '\t'
  | 'n' => some '\n'
  | 'f' => some '\x0c'
  | 'r' => some '\r'
  | '"' => some '"'
  | '\\' => some '\\'
  | _ => none

/-- Puts a character in front of what a reader found. -/
def consTo (c : Char) : List Char × List Char → List Char × List Char
  | (text, rest) => (c :: text, rest)

/-! ## Strings on one line -/

/-- The text of a string up to its closing double quote. -/
def basicBody? : Escape → List Char → Option (List Char × List Char)
  | _, [] => none
  | .outside, c :: rest =>
    if c == '"' then some ([], rest)
    else if c == '\\' then basicBody? .begun rest
    else if isCommentChar c then (basicBody? .outside rest).map (consTo c)
    else none
  | .begun, c :: rest =>
    match shortEscape? c with
    | some d => (basicBody? .outside rest).map (consTo d)
    | none =>
      if c == 'u' then basicBody? (.digits 4 0) rest
      else if c == 'U' then basicBody? (.digits 8 0) rest
      else none
  | .digits left value, c :: rest =>
    match hexValue? c with
    | none => none
    | some d =>
      if left ≤ 1 then
        match scalar? (value * 16 + d) with
        | some e => (basicBody? .outside rest).map (consTo e)
        | none => none
      else basicBody? (.digits (left - 1) (value * 16 + d)) rest
  | .fold _, _ :: _ => none

/-- The text of a string up to its closing single quote. -/
def literalBody? : List Char → Option (List Char × List Char)
  | [] => none
  | c :: rest =>
    if c == '\'' then some ([], rest)
    else if isCommentChar c then (literalBody? rest).map (consTo c)
    else none

/-! ## Strings over several lines -/

/-- The text of a string up to its closing three double quotes. -/
def longBasicBody? : Escape → List Char → Option (List Char × List Char)
  | _, [] => none
  | .outside, '"' :: '"' :: '"' :: '"' :: '"' :: rest => some (['"', '"'], rest)
  | .outside, '"' :: '"' :: '"' :: '"' :: rest => some (['"'], rest)
  | .outside, '"' :: '"' :: '"' :: rest => some ([], rest)
  | .outside, '\r' :: '\n' :: rest => (longBasicBody? .outside rest).map (consTo '\n')
  | .outside, c :: rest =>
    if c == '\\' then longBasicBody? .begun rest
    else if isCommentChar c || c == '\n' then (longBasicBody? .outside rest).map (consTo c)
    else none
  | .begun, '\r' :: '\n' :: rest => longBasicBody? (.fold true) rest
  | .begun, c :: rest =>
    match shortEscape? c with
    | some d => (longBasicBody? .outside rest).map (consTo d)
    | none =>
      if c == 'u' then longBasicBody? (.digits 4 0) rest
      else if c == 'U' then longBasicBody? (.digits 8 0) rest
      else if c == '\n' then longBasicBody? (.fold true) rest
      else if isLineBlank c then longBasicBody? (.fold false) rest
      else none
  | .digits left value, c :: rest =>
    match hexValue? c with
    | none => none
    | some d =>
      if left ≤ 1 then
        match scalar? (value * 16 + d) with
        | some e => (longBasicBody? .outside rest).map (consTo e)
        | none => none
      else longBasicBody? (.digits (left - 1) (value * 16 + d)) rest
  | .fold _, '\r' :: '\n' :: rest => longBasicBody? (.fold true) rest
  | .fold true, '"' :: '"' :: '"' :: '"' :: '"' :: rest => some (['"', '"'], rest)
  | .fold true, '"' :: '"' :: '"' :: '"' :: rest => some (['"'], rest)
  | .fold true, '"' :: '"' :: '"' :: rest => some ([], rest)
  | .fold ended, c :: rest =>
    if c == '\n' then longBasicBody? (.fold true) rest
    else if isLineBlank c then longBasicBody? (.fold ended) rest
    else if !ended then none
    else if c == '\\' then longBasicBody? .begun rest
    else if isCommentChar c then (longBasicBody? .outside rest).map (consTo c)
    else none

/-- The text of a string up to its closing three single quotes. -/
def longLiteralBody? : List Char → Option (List Char × List Char)
  | [] => none
  | '\'' :: '\'' :: '\'' :: '\'' :: '\'' :: rest => some (['\'', '\''], rest)
  | '\'' :: '\'' :: '\'' :: '\'' :: rest => some (['\''], rest)
  | '\'' :: '\'' :: '\'' :: rest => some ([], rest)
  | '\r' :: '\n' :: rest => (longLiteralBody? rest).map (consTo '\n')
  | c :: rest =>
    if isCommentChar c || c == '\n' then (longLiteralBody? rest).map (consTo c) else none

/-- What follows the end of a line, if one stands in front. -/
def dropNewline : List Char → List Char
  | '\n' :: rest => rest
  | '\r' :: '\n' :: rest => rest
  | cs => cs

def string? : List Char → Option (List Char × List Char)
  | '"' :: '"' :: '"' :: rest => longBasicBody? .outside (dropNewline rest)
  | '\'' :: '\'' :: '\'' :: rest => longLiteralBody? (dropNewline rest)
  | '"' :: rest => basicBody? .outside rest
  | '\'' :: rest => literalBody? rest
  | _ => none

/-! ## Keys -/

/-- Characters of keys that need no quotes. -/
def isBareKeyChar (c : Char) : Bool :=
  c.isAlphanum || c == '-' || c == '_'

/-- One key, quoted or bare. -/
def simpleKey? (cs : List Char) : Option (String × List Char) :=
  match cs with
  | '"' :: rest => (basicBody? .outside rest).map fun (text, rest) => (String.ofList text, rest)
  | '\'' :: rest => (literalBody? rest).map fun (text, rest) => (String.ofList text, rest)
  | _ =>
    let key := cs.takeWhile isBareKeyChar
    if key.isEmpty then none else some (String.ofList key, cs.dropWhile isBareKeyChar)

/-- Keys joined by dots, at most `n` of them, with the blanks around them. -/
def dottedKey? : (n : Nat) → List Char → Option (List String × List Char)
  | 0, _ => none
  | n + 1, cs => do
    let (key, rest) ← simpleKey? (dropBlanks cs)
    match dropBlanks rest with
    | '.' :: rest =>
      let (keys, rest) ← dottedKey? n rest
      return (key :: keys, rest)
    | rest => return ([key], rest)

end UtilityCss.Toml
