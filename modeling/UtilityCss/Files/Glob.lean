import UtilityCss.Files.Workspace

/-!
# File name patterns

A pattern is a path in which `?` stands for one character, `*` for any number of them, `[a-c]` for
one of a set, `[!a-c]` for one outside it, and a whole piece `**` for any number of directories.

* **Reading** — `Pattern.read` turns a text into tokens; `Glob.read` reads the whole pattern once
  and then each of its pieces, and answers the first fault.
* **Matching** — `Pattern.fits` compares tokens with a name.
* **Expanding** — the pieces are moves through the tree of a workspace, and `Glob.expand` makes one
  after the other from all paths reached so far.  A piece without wildcards is only looked up.  The
  paths found are in the order of the tree: a directory in front of its contents, names ascending.
  A path that is reached in several ways is listed where it is reached first.
-/

namespace UtilityCss

/-- What is wrong with a pattern. -/
inductive PatternError where
  /-- Three or more stars stand side by side. -/
  | tooManyStars
  /-- Two stars stand next to something else in one piece. -/
  | doubleStarNotAlone
  | brokenSet
  deriving DecidableEq, Repr

def PatternError.message : PatternError → String
  | .tooManyStars => "wildcards are either regular `*` or recursive `**`"
  | .doubleStarNotAlone => "recursive wildcards must form a single path component"
  | .brokenSet => "invalid range pattern"

/-- A member of a set: the characters from `first` to `last`. -/
structure CharRange where
  /-- The least character. -/
  first : Char
  /-- The greatest character. -/
  last : Char
  deriving DecidableEq, Repr

/-- A part of a pattern. -/
inductive PatternToken where
  | char (c : Char)
  | anyChar
  | anySequence
  | anyDirectories
  /-- One character of a set, or, if `inside` is false, one outside it. -/
  | set (inside : Bool) (ranges : List CharRange)
  deriving DecidableEq, Repr

/-- The character of a part that stands for itself. -/
def PatternToken.char? : PatternToken → Option Char
  | .char c => some c
  | _ => none

/-- The parts of a pattern, in order. -/
abbrev Pattern := List PatternToken

namespace Pattern

/-! ## Reading -/

/-- The ranges of a set.  A hyphen between two characters makes a range of them. -/
def ranges : List Char → List CharRange
  | a :: '-' :: b :: rest => ⟨a, b⟩ :: ranges rest
  | a :: rest => ⟨a, a⟩ :: ranges rest
  | [] => []

/-- The text of a set and what follows its closing bracket.  The first character belongs to the
set even if it is a bracket. -/
def splitSet? : List Char → Option (List Char × List Char)
  | [] => none
  | first :: rest =>
    match rest.dropWhile (· != ']') with
    | _ :: after => some (first :: rest.takeWhile (· != ']'), after)
    | [] => none

/-- The set behind an opening bracket, and what follows it. -/
def set? : List Char → Option (PatternToken × List Char)
  | '!' :: rest => (splitSet? rest).map fun (set, after) => (.set false (ranges set), after)
  | rest => (splitSet? rest).map fun (set, after) => (.set true (ranges set), after)

/-- What two stars leave to be read, given whether a piece begins with them: they must end the
piece, and the slash behind them is theirs. -/
def afterDoubleStar (atStart : Bool) (rest : List Char) : Except PatternError (List Char) :=
  if !atStart then .error .doubleStarNotAlone
  else
    match rest with
    | [] => .ok []
    | '/' :: rest => .ok rest
    | _ => .error .doubleStarNotAlone

/-- The token in front of a pattern, and what follows it; `atStart` says whether a piece of the path
begins here. -/
def token (atStart : Bool) (c : Char) (rest : List Char) :
    Except PatternError (PatternToken × List Char) :=
  match c, rest with
  | '?', rest => .ok (.anyChar, rest)
  | '*', '*' :: '*' :: _ => .error .tooManyStars
  | '*', '*' :: rest => do
    let rest ← afterDoubleStar atStart rest
    return (.anyDirectories, rest)
  | '*', rest => .ok (.anySequence, rest)
  | '[', rest =>
    match set? rest with
    | some found => .ok found
    | none => .error .brokenSet
  | c, rest => .ok (.char c, rest)

/-- The tokens of a text of at most `n` characters. -/
def tokens : (n : Nat) → (atStart : Bool) → List Char → Except PatternError Pattern
  | _, _, [] => .ok []
  | 0, _, _ => .ok []
  | n + 1, atStart, c :: rest => do
    let (found, after) ← token atStart c rest
    let others ← tokens n (found == .char '/' || found == .anyDirectories) after
    return found :: others

/-- Reads a pattern. -/
def read (text : String) : Except PatternError Pattern :=
  tokens text.length true text.toList

/-! ## Matching -/

def inRanges (ranges : List CharRange) (c : Char) : Bool :=
  ranges.any fun r => r.first ≤ c && c ≤ r.last

/-- Whether a part of a pattern that stands for one character stands for this one. -/
def accepts : PatternToken → Char → Bool
  | .char d, c => d == c
  | .anyChar, _ => true
  | .set inside ranges, c => inRanges ranges c == inside
  | .anySequence, _ => false
  | .anyDirectories, _ => false

/-- Whether a part of a pattern stands for any number of characters. -/
def isSequence : PatternToken → Bool
  | .anySequence => true
  | .anyDirectories => true
  | _ => false

/-- For each member of a list, whether it or a later one holds. -/
def holdsLater : List Bool → List Bool
  | [] => []
  | b :: bs =>
    let later := holdsLater bs
    (b || later.headD false) :: later

/-- For each end of a text, from the text itself to the empty one, whether a pattern matches the
whole of that end.  The ends that the rest of the pattern matches are found once, so the work is
the length of the pattern times that of the text. -/
def matchesEnds : Pattern → List Char → List Bool
  | [], cs => cs.map (fun _ => false) ++ [true]
  | token :: rest, cs =>
    let ends := matchesEnds rest cs
    if isSequence token then holdsLater ends
    else cs.zipWith (fun c matched => accepts token c && matched) ends.tail ++ [false]

/-- Whether a pattern matches a whole text. -/
def matchesChars (p : Pattern) (cs : List Char) : Bool :=
  (matchesEnds p cs).headD false

def fits (p : Pattern) (name : String) : Bool :=
  matchesChars p name.toList

/-- The text of a pattern without wildcards. -/
def literal? (p : Pattern) : Option String :=
  (p.mapM PatternToken.char?).map String.ofList

end Pattern

/-! ## Expanding -/

namespace Glob

def hasWildcard (text : String) : Bool :=
  text.toList.any fun c => c == '*' || c == '?' || c == '['

/-- The pieces of a pattern behind its root, without the empty one behind a final slash. -/
def stepTexts (pattern : String) : List String :=
  let all := Path.pieces pattern
  let behindRoot := if Path.isAbsolute pattern then all.drop 1 else all
  if behindRoot.getLast? == some "" then behindRoot.dropLast else behindRoot

/-- One of several `**` pieces that follow each other. -/
def collapse : List Pattern → List Pattern
  | [.anyDirectories] :: [.anyDirectories] :: rest => collapse ([.anyDirectories] :: rest)
  | step :: rest => step :: collapse rest
  | [] => []

/-- The pieces of a pattern that has no fault. -/
def read (pattern : String) : Except PatternError (List Pattern) := do
  let _ ← Pattern.read pattern
  let steps ← (stepTexts pattern).mapM Pattern.read
  return collapse steps

/-- The path of an entry of the directory `dir`; the working directory is not written down. -/
def childPath (dir name : String) : String :=
  if Path.parts dir == ["."] then name else Path.join dir name

/-- The entries of a directory: path, name, and whether the entry is a directory. -/
def children (ws : Workspace) (dir : String) : List (String × String) :=
  match ws.locate dir with
  | .ok place => (ws.below place).filterMap fun (names, _) =>
    match names with
    | [name] => some (childPath dir name, name)
    | _ => none
  | .error _ => []

/-- All entries below a directory, each in front of its contents: path and name. -/
def descendants (ws : Workspace) (dir : String) : List (String × String) :=
  match ws.locate dir with
  | .ok place => (ws.below place).map fun (names, _) =>
    (names.foldl childPath dir, names.getLastD "")
  | .error _ => []

/-- The special entries of a directory that a pattern names; only one that begins with a dot can. -/
def specials (step : Pattern) : List String :=
  if step.head? == some (.char '.') then ["..", "."].filter (Pattern.fits step) else []

/-- What one piece of a pattern, or `**` with the piece behind it, does from a directory. -/
inductive Move where
  | enter (name : String)
  /-- Goes to the entries that a piece matches. -/
  | search (step : Pattern)
  /-- Goes to the entries at any depth that a piece matches. -/
  | searchBelow (step : Pattern)
  | directoriesBelow

/-- The move of a piece that is not `**`. -/
def moveOf (step : Pattern) : Move :=
  match Pattern.literal? step with
  | some name => .enter name
  | none => .search step

/-- The moves that the pieces of a pattern stand for. -/
def moves : List Pattern → List Move
  | [] => []
  | [.anyDirectories] :: [] => [.directoriesBelow]
  | [.anyDirectories] :: step :: rest => .searchBelow step :: moves rest
  | step :: rest => moveOf step :: moves rest

/-- The paths that a move leads to from a path. -/
def advance (ws : Workspace) (path : String) : Move → List String
  | .enter name =>
    let next := childPath path name
    let known := if name == "." || name == ".." then ws.isDirectory path else ws.exists? next
    if known then [next] else []
  | .search step =>
    if ws.isDirectory path then
      (specials step).map (Path.join path) ++
        (children ws path).filterMap fun (found, name) =>
          if Pattern.fits step name then some found else none
    else []
  | .searchBelow step =>
    (descendants ws path).filterMap fun (found, name) =>
      if Pattern.fits step name then some found else none
  | .directoriesBelow =>
    (descendants ws path).filterMap fun (found, _) =>
      if ws.isDirectory found then some found else none

/-- The paths that a sequence of moves leads to, each listed once. -/
def expand (ws : Workspace) (moves : List Move) (path : String) : List String :=
  moves.foldl (fun paths move => (paths.flatMap fun p => advance ws p move).eraseDups) [path]

/-- The paths that a pattern matches, in the order of the tree. -/
def paths (ws : Workspace) (pattern : String) : Except PatternError (List String) := do
  let steps ← read pattern
  let found := expand ws (moves steps) (if Path.isAbsolute pattern then "/" else ".")
  let onlyDirectories := Path.endsInSlash pattern
  return found.filter fun path => !onlyDirectories || ws.isDirectory path

end Glob

end UtilityCss
