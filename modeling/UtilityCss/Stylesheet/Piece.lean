import UtilityCss.Text.Measure

/-!
# Pieces of stylesheet text

The text of a stylesheet is read piece by piece: an escaped character, a comment, a string literal,
a custom property, a brace, a semicolon, a blank, or a single plain character.  `Piece.next` takes
the next piece off a text, looking at most one character ahead to tell which piece begins.

* **Bodies** — `commentBody`, `stringBody` and `customBody` read the inside of the three pieces that
  extend over many characters.  In all of them a backslash hides the character behind it.
* **The piece** — `Piece`, with `Piece.source`, everything that was read for it.
* **Progress** — `next_length`: what is left behind a piece is no longer than what stood behind its
  first character, so reading piece by piece comes to an end.
-/

namespace UtilityCss

/-- The blanks that separate pieces: space, newline and tab. -/
def isGap (c : Char) : Bool :=
  c == ' ' || c == '\n' || c == '\t'

/-! ## Bodies -/

/-- The text of a comment behind its opening, whether it was closed, and what follows.  A comment
that is not closed runs to the end. -/
def commentBody : List Char → List Char × Bool × List Char
  | [] => ([], false, [])
  | '*' :: '/' :: rest => ([], true, rest)
  | '\\' :: c :: rest =>
    let (text, closed, rest') := commentBody rest
    ('\\' :: c :: text, closed, rest')
  | c :: rest =>
    let (text, closed, rest') := commentBody rest
    (c :: text, closed, rest')

/-- How a string literal goes on behind its opening quote. -/
inductive StringEnd where
  /-- It is closed: the text before the closing quote, and what follows it. -/
  | closed (text rest : List Char)
  /-- It is cut off: the text that still belongs to it. -/
  | cutOff (text : List Char)

def StringEnd.cons (front : List Char) : StringEnd → StringEnd
  | .closed text rest => .closed (front ++ text) rest
  | .cutOff text => .cutOff (front ++ text)

/-- What follows a literal; behind one that is cut off nothing is read. -/
def StringEnd.rest : StringEnd → List Char
  | .closed _ rest => rest
  | .cutOff _ => []

@[simp]
theorem StringEnd.rest_closed (text rest : List Char) :
    (StringEnd.closed text rest).rest = rest := rfl

@[simp]
theorem StringEnd.rest_cutOff (text : List Char) : (StringEnd.cutOff text).rest = [] := rfl

@[simp]
theorem StringEnd.rest_cons (front : List Char) (e : StringEnd) : (e.cons front).rest = e.rest := by
  cases e <;> rfl

/-- Reads a string literal behind its opening quote.  A newline cuts it off, and so does a semicolon
at the end of a line, which then still belongs to it. -/
def stringBody (quote : Char) : List Char → StringEnd
  | [] => .cutOff []
  | '\\' :: c :: rest => (stringBody quote rest).cons ['\\', c]
  | c :: rest =>
    if c = quote then .closed [] rest
    else if c = ';' && rest.head? == some '\n' then .cutOff [';']
    else if c = '\n' then .cutOff []
    else (stringBody quote rest).cons [c]

/-- The bracket that closes an opening bracket. -/
def closer? : Char → Option Char
  | '(' => some ')'
  | '[' => some ']'
  | '{' => some '}'
  | _ => none

/-- The brackets still open behind a character; a closing bracket that does not match the innermost
open one changes nothing. -/
def bracketsAfter (brackets : List Char) (c : Char) : List Char :=
  match closer? c with
  | some close => close :: brackets
  | none => if brackets.head? == some c then brackets.tail else brackets

/-- Reads a custom property: its text, whether a semicolon ended it, and what follows.  Semicolons
and closing braces inside brackets or comments belong to the text; a closing brace outside ends the
property and is left to be read. -/
def customBody : (inComment : Bool) → (brackets : List Char) → List Char →
    List Char × Bool × List Char
  | _, _, [] => ([], false, [])
  | inComment, brackets, '\\' :: c :: rest =>
    let (text, ended, rest') := customBody inComment brackets rest
    ('\\' :: c :: text, ended, rest')
  | false, brackets, '/' :: '*' :: rest =>
    let (text, ended, rest') := customBody true brackets rest
    ('/' :: '*' :: text, ended, rest')
  | true, brackets, '*' :: '/' :: rest =>
    let (text, ended, rest') := customBody false brackets rest
    ('*' :: '/' :: text, ended, rest')
  | true, brackets, c :: rest =>
    let (text, ended, rest') := customBody true brackets rest
    (c :: text, ended, rest')
  | false, brackets, c :: rest =>
    if brackets.isEmpty && c == ';' then ([], true, rest)
    else if brackets.isEmpty && c == '}' then ([], false, c :: rest)
    else
      let (text, ended, rest') := customBody false (bracketsAfter brackets c) rest
      (c :: text, ended, rest')

/-! ## The piece -/

/-- One piece of stylesheet text. -/
inductive Piece where
  /-- Text that is kept as it stands: an escaped character or a string literal. -/
  | verbatim (text : List Char)
  /-- A comment, with the text between its delimiters. -/
  | comment (text : List Char) (closed : Bool)
  | brokenString (text : List Char)
  /-- A blank directly in front of another. -/
  | gap (c : Char)
  /-- A newline in front of something else. -/
  | newline
  /-- A custom property, whose text begins with two hyphens. -/
  | custom (text : List Char) (ended : Bool)
  | semicolon
  | opening
  | closing
  | plain (c : Char)

namespace Piece

/-- Everything that was read for a piece. -/
def source : Piece → List Char
  | .verbatim text => text
  | .comment text closed => '/' :: '*' :: (text ++ if closed then ['*', '/'] else [])
  | .brokenString text => text
  | .gap c => [c]
  | .newline => ['\n']
  | .custom text ended => text ++ if ended then [';'] else []
  | .semicolon => [';']
  | .opening => ['{']
  | .closing => ['}']
  | .plain c => [c]

/-- The number of bytes that were read for a piece. -/
def width (p : Piece) : Nat :=
  Text.byteLength p.source

/-- The piece that begins with a backslash. -/
def escaped : List Char → Piece × List Char
  | [] => (.verbatim ['\\'], [])
  | c :: rest => (.verbatim ['\\', c], rest)

/-- The piece that begins with a quote. -/
def quoted (quote : Char) : StringEnd → Piece
  | .closed text _ => .verbatim (quote :: (text ++ [quote]))
  | .cutOff text => .brokenString (quote :: text)

/-- The next piece of a text that begins with `c`, and what is left behind it.  A custom property
begins only where no other text is being collected, which `fresh` tells. -/
def next (fresh : Bool) (c : Char) (rest : List Char) : Piece × List Char :=
  if c = '\\' then escaped rest
  else if c = '/' && rest.head? == some '*' then
    let body := commentBody rest.tail
    (.comment body.1 body.2.1, body.2.2)
  else if c = '"' || c = '\'' then
    let body := stringBody c rest
    (quoted c body, body.rest)
  else if isGap c && rest.head?.any isGap then (.gap c, rest)
  else if c = '\n' then (.newline, rest)
  else if c = '-' && rest.head? == some '-' && fresh then
    let body := customBody false [] rest.tail
    (.custom ('-' :: '-' :: body.1) body.2.1, body.2.2)
  else if c = ';' then (.semicolon, rest)
  else if c = '{' then (.opening, rest)
  else if c = '}' then (.closing, rest)
  else (.plain c, rest)

end Piece

/-! ## Progress -/

theorem commentBody_length (cs : List Char) : (commentBody cs).2.2.length ≤ cs.length := by
  fun_induction commentBody cs <;> simp_all <;> omega

theorem stringBody_length (quote : Char) (cs : List Char) :
    (stringBody quote cs).rest.length ≤ cs.length := by
  fun_induction stringBody quote cs <;> simp_all <;> omega

theorem customBody_length (inComment : Bool) (brackets cs : List Char) :
    (customBody inComment brackets cs).2.2.length ≤ cs.length := by
  fun_induction customBody inComment brackets cs <;> simp_all <;> omega

theorem Piece.escaped_length (rest : List Char) :
    (Piece.escaped rest).2.length ≤ rest.length := by
  cases rest <;> simp [escaped]

/-- Reading a piece leaves no more behind than stood behind its first character. -/
theorem Piece.next_length (fresh : Bool) (c : Char) (rest : List Char) :
    (Piece.next fresh c rest).2.length ≤ rest.length := by
  have tail : rest.tail.length ≤ rest.length := by simp
  fun_cases Piece.next fresh c rest with
  | case1 => exact Piece.escaped_length rest
  | case2 => exact Nat.le_trans (commentBody_length rest.tail) tail
  | case3 => exact stringBody_length c rest
  | case6 => exact Nat.le_trans (customBody_length false [] rest.tail) tail
  | _ => exact Nat.le_refl _

end UtilityCss
