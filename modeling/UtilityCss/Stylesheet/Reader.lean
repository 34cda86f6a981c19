import UtilityCss.Stylesheet.Node
import UtilityCss.Stylesheet.Piece
import UtilityCss.Stylesheet.ReadError
import UtilityCss.Text.Search

/-!
# Reading a stylesheet

The reader builds the tree in a single pass over the pieces of the text.  Its state, a `Reading`,
holds the text of the node being read, the rules whose blocks are open, and the nodes finished so
far; `Reading.push` adds one piece to it.

* **Comments** never reach the text of a node.  Those that begin with `!` are licence comments and
  are moved in front of everything else, in the order they were met.
* **Blanks** in front of a node are dropped and runs of them inside a node become one.
* **Declarations** are split at their first colon; `!important` behind it is taken off and noted.
* **The end** of the text closes nothing: an open block is an error, and text that no semicolon or
  brace has finished is dropped.
-/

namespace UtilityCss

/-- A rule whose block is open. -/
structure OpenRule where
  /-- The trimmed text in front of the brace. -/
  selector : String
  /-- Offset of the rule's first byte. -/
  start : Nat
  /-- Offset behind the opening brace. -/
  bodyStart : Nat
  /-- The finished children, newest first. -/
  nodes : List Node

/-- What the reader knows between two pieces. -/
structure Reading where
  file : Nat
  /-- Offset of the next piece. -/
  pos : Nat := 0
  /-- Finished nodes outside all rules, newest first. -/
  finished : List Node := []
  /-- Licence comments, newest first. -/
  licences : List Node := []
  /-- Rules whose blocks are open, innermost first. -/
  opened : List OpenRule := []
  /-- The text of the node being read, back to front. -/
  current : List Char := []
  /-- Offset where that text began. -/
  currentStart : Nat := 0

/-! ## Declarations -/

/-- The parts of a text before and after the first of a character. -/
def splitAtChar? (c : Char) : List Char → Option (List Char × List Char)
  | [] => none
  | d :: rest =>
    if d = c then some ([], rest)
    else (splitAtChar? c rest).map fun (before, after) => (d :: before, after)

/-- The parts of a custom property around its first colon that is neither escaped nor in a
comment. -/
def splitAtColon? : (inComment : Bool) → List Char → Option (List Char × List Char)
  | _, [] => none
  | inComment, '\\' :: c :: rest =>
    (splitAtColon? inComment rest).map fun (before, after) => ('\\' :: c :: before, after)
  | false, '/' :: '*' :: rest =>
    (splitAtColon? true rest).map fun (before, after) => ('/' :: '*' :: before, after)
  | true, '*' :: '/' :: rest =>
    (splitAtColon? false rest).map fun (before, after) => ('*' :: '/' :: before, after)
  | inComment, c :: rest =>
    if !inComment && c == ':' then some ([], rest)
    else (splitAtColon? inComment rest).map fun (before, after) => (c :: before, after)

def importantMark : List Char := "!important".toList

/-- A declaration from its text and the parts around its colon.  Without a colon the whole text is
the property. -/
def declarationOf (text : List Char) (parts : Option (List Char × List Char)) (span : Span) :
    Node :=
  let declared (property value : List Char) (important : Bool) :=
    Node.declaration (String.ofList (Text.trim property)) (String.ofList (Text.trim value))
      important (some span)
  match parts with
  | none => declared text [] false
  | some (property, value) =>
    match Text.splitFirst? importantMark value with
    | some (value, _) => declared property value true
    | none => declared property value false

/-- A declaration from text collected by the reader. -/
def plainDeclaration (text : List Char) (span : Span) : Node :=
  declarationOf text (splitAtChar? ':' text) span

/-- A declaration from the text of a custom property. -/
def customDeclaration (text : List Char) (span : Span) : Node :=
  declarationOf text ((splitAtColon? false text).or (splitAtChar? ':' text)) span

/-! ## One piece at a time -/

namespace Reading

def span (r : Reading) (start stop : Nat) : Span :=
  Span.ofRange r.file start stop

/-- Adds a finished node to the innermost open rule, or to the top level. -/
def attach (r : Reading) (node : Node) : Reading :=
  match r.opened with
  | [] => { r with finished := node :: r.finished }
  | rule :: outer => { r with opened := { rule with nodes := node :: rule.nodes } :: outer }

/-- Adds text to the node being read; if the node had none, it begins here. -/
def append (r : Reading) (text : List Char) : Reading :=
  { r with
    current := text.reverse ++ r.current
    currentStart := if r.current.isEmpty then r.pos else r.currentStart }

def advance (r : Reading) (n : Nat) : Reading :=
  { r with pos := r.pos + n }

def clear (r : Reading) : Reading :=
  { r with current := [] }

def text (r : Reading) : List Char :=
  r.current.reverse

/-- Whether the node being read is an at-rule. -/
def readsAtRule (r : Reading) : Bool :=
  r.text.head? == some '@'

/-- A newline joins the text as a space, unless a blank is there or no text is. -/
def pushNewline (r : Reading) : Reading :=
  match r.current with
  | [] => r
  | last :: _ => if isGap last then r else { r with current := ' ' :: r.current }

/-- A comment is kept only if it begins with `!`. -/
def pushComment (r : Reading) (text : List Char) (width : Nat) : Reading :=
  if text.head? == some '!' then
    let node := Node.comment (String.ofList text) (some (r.span r.pos (r.pos + width)))
    { r with licences := node :: r.licences }
  else r

/-- A semicolon finishes a statement or a declaration; blank text is dropped. -/
def pushSemicolon (r : Reading) : Reading :=
  let span := r.span r.currentStart (r.pos + 1)
  if r.readsAtRule then
    r.clear.attach (.rule (String.ofList (Text.trimEnd r.text)) [] false (some span))
  else if (Text.trim r.text).isEmpty then r.clear
  else r.clear.attach (plainDeclaration r.text span)

/-- An opening brace makes the text read so far the selector of a rule. -/
def pushOpening (r : Reading) : Reading :=
  let rule : OpenRule :=
    { selector := String.ofList (Text.trim r.text)
      start := if r.current.isEmpty then r.pos else r.currentStart
      bodyStart := r.pos + 1
      nodes := [] }
  { r.clear with opened := rule :: r.opened }

/-- Text in front of a closing brace is a statement or declaration without its semicolon. -/
def finishText (r : Reading) : Reading :=
  let span := r.span r.currentStart r.pos
  if r.current.isEmpty then r
  else if r.readsAtRule then
    r.clear.attach (.rule (String.ofList (Text.trim r.text)) [] false (some span))
  else r.clear.attach (plainDeclaration r.text span)

/-- A closing brace finishes the innermost open rule. -/
def pushClosing (r : Reading) : Except ReadError Reading :=
  let r' := r.finishText
  match r'.opened with
  | [] => .error (.missingOpeningBrace (r.span r.pos (r.pos + 1)))
  | rule :: outer =>
    let span := r.span rule.start (r.pos + 1)
    .ok ({ r' with opened := outer }.attach
      (.rule rule.selector rule.nodes.reverse true (some span)))

/-- A plain character joins the text, unless it is a blank in front of the node. -/
def pushPlain (r : Reading) (c : Char) : Reading :=
  if r.current.isEmpty && isGap c then r else r.append [c]

/-- Adds the next piece of the text. -/
def push (r : Reading) (p : Piece) : Except ReadError Reading :=
  let next : Except ReadError Reading :=
    match p with
    | .verbatim text => .ok (r.append text)
    | .comment text _ => .ok (r.pushComment text p.width)
    | .brokenString text =>
      .error (.unterminatedString (String.ofList (text ++ text.take 1))
        (r.span r.pos (r.pos + p.width)))
    | .gap _ => .ok r
    | .newline => .ok r.pushNewline
    | .custom text _ => .ok (r.attach (customDeclaration text (r.span r.pos (r.pos + p.width))))
    | .semicolon => .ok r.pushSemicolon
    | .opening => .ok r.pushOpening
    | .closing => r.pushClosing
    | .plain c => .ok (r.pushPlain c)
  next.map (·.advance p.width)

/-- Reads a text to its end, piece by piece. -/
def run (r : Reading) : List Char → Except ReadError Reading
  | [] => .ok r
  | c :: rest =>
    let step := Piece.next r.current.isEmpty c rest
    match r.push step.1 with
    | .error e => .error e
    | .ok r' => r'.run step.2
termination_by text => text.length
decreasing_by
  have := Piece.next_length r.current.isEmpty c rest
  simp only [List.length_cons]
  omega

/-- The forest that was read, if no block is open. -/
def finish (r : Reading) : Except ReadError (List Node) :=
  match r.opened with
  | [] => .ok (r.licences.reverse ++ r.finished.reverse)
  | rule :: _ => .error (.missingClosingBrace rule.selector (r.span rule.start rule.bodyStart))

end Reading

/-- Reads the text of the source with number `file`. -/
def readStylesheet (file : Nat) (text : String) : Except ReadError (List Node) :=
  match ({ file : Reading }).run text.toList with
  | .error e => .error e
  | .ok r => r.finish

end UtilityCss
