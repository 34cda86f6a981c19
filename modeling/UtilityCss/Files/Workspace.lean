import UtilityCss.Files.FileError
import UtilityCss.Files.Path

/-!
# Files in memory

A run of the compiler sees files through a `Workspace`: a tree of entries and the place in it that
relative paths start from.  Reading and writing follow the usual rules of a file system without
links and permissions, so that every failure has the cause a user would be told.

* **Places** — a `Place` is the list of names that lead from the root to an entry.  `..` at the root
  stays there.
* **The tree** — entries with their places, ascending; an entry stands in front of all it contains,
  and the entries of a directory follow each other in the order of their names.
* **Paths** — `locate` walks along the pieces of a path.  Every piece but the last must lead to a
  directory, and so must the last if a slash follows it.
-/

namespace UtilityCss

namespace Files

/-- The names that lead from the root to an entry. -/
abbrev Place := List String

/-- What stands at a place. -/
inductive Entry where
  | file (bytes : ByteArray)
  | directory

/-- The longest name of an entry, in bytes. -/
def nameLimit : Nat := 255

/-- The longest path, in bytes. -/
def pathLimit : Nat := 4095

end Files

open Files

/-- A tree of files, and the place that relative paths start from. -/
structure Workspace where
  /-- The entries below the root, ascending by place. -/
  entries : List (Place × Entry)
  here : Place

namespace Workspace

def empty : Workspace := ⟨[], []⟩

/-! ## Entries by place -/

/-- What stands at a place; the root is a directory. -/
def entry? (ws : Workspace) (place : Place) : Option Entry :=
  if place.isEmpty then some .directory else ws.entries.lookup place

def hasDirectory (ws : Workspace) (place : Place) : Bool :=
  match ws.entry? place with
  | some .directory => true
  | _ => false

/-- Puts an entry among ascending entries, in place of the one that stands there. -/
def insertEntry (place : Place) (entry : Entry) : List (Place × Entry) → List (Place × Entry)
  | [] => [(place, entry)]
  | (other, old) :: rest =>
    if place < other then (place, entry) :: (other, old) :: rest
    else if other < place then (other, old) :: insertEntry place entry rest
    else (place, entry) :: rest

/-- Puts an entry at a place. -/
def put (ws : Workspace) (place : Place) (entry : Entry) : Workspace :=
  { ws with entries := insertEntry place entry ws.entries }

/-- Makes the directories that lead to a place, and the one at the place itself. -/
def makeDirectory (ws : Workspace) (place : Place) : Workspace :=
  (List.range place.length).foldl (fun ws n => ws.put (place.take (n + 1)) .directory) ws

/-- Puts a file at a place and makes the directories that lead there. -/
def putFile (ws : Workspace) (place : Place) (bytes : ByteArray) : Workspace :=
  (ws.makeDirectory place.dropLast).put place (.file bytes)

/-- Takes away what stands at a place, with all it contains. -/
def remove (ws : Workspace) (place : Place) : Workspace :=
  { ws with entries := ws.entries.filter fun (other, _) => !place.isPrefixOf other }

/-- The entries below a place in order, with the names that lead to them from there. -/
def below (ws : Workspace) (place : Place) : List (Place × Entry) :=
  ws.entries.filterMap fun (other, entry) =>
    if place.isPrefixOf other && place.length < other.length then
      some (other.drop place.length, entry)
    else none

/-! ## Entries by path -/

/-- Walks from a place along the pieces of a path. -/
def walk (ws : Workspace) : Place → List String → Except FileError Place
  | place, [] => .ok place
  | place, piece :: rest =>
    if !ws.hasDirectory place then .error .notDirectory
    else if piece == "" || piece == "." then ws.walk place rest
    else if piece == ".." then ws.walk place.dropLast rest
    else if nameLimit < piece.utf8ByteSize then .error .nameTooLong
    else if (ws.entry? (place ++ [piece])).isSome then ws.walk (place ++ [piece]) rest
    else .error .notFound

/-- The place a path starts from. -/
def startOf (ws : Workspace) (path : String) : Place :=
  if Path.isAbsolute path then [] else ws.here

/-- The reasons to refuse a path that can be seen without looking at the tree. -/
def checkPath (path : String) : Except FileError Unit :=
  if path.toList.contains '\x00' then .error .nulInPath
  else if path.isEmpty then .error .notFound
  else if pathLimit < path.utf8ByteSize then .error .nameTooLong
  else .ok ()

/-- The place a path leads to. -/
def locate (ws : Workspace) (path : String) : Except FileError Place := do
  checkPath path
  ws.walk (ws.startOf path) (Path.pieces path)

def exists? (ws : Workspace) (path : String) : Bool :=
  (ws.locate path).isOk

def isDirectory (ws : Workspace) (path : String) : Bool :=
  match ws.locate path with
  | .ok place => ws.hasDirectory place
  | .error _ => false

def isFile (ws : Workspace) (path : String) : Bool :=
  ws.exists? path && !ws.isDirectory path

/-- The bytes of the file a path leads to. -/
def read (ws : Workspace) (path : String) : Except FileError ByteArray := do
  match ws.entry? (← ws.locate path) with
  | some (.file bytes) => .ok bytes
  | some .directory => .error .isDirectory
  | none => .error .notFound

def readText (ws : Workspace) (path : String) : Except FileError String := do
  match String.fromUTF8? (← ws.read path) with
  | some text => .ok text
  | none => .error .notText

/-- Writes a file, which may exist already, into a directory that exists.  A path that ends in a
slash names a directory, whether there is one or not. -/
def write (ws : Workspace) (path : String) (bytes : ByteArray) : Except FileError Workspace := do
  checkPath path
  let pieces := Path.named path
  let place ← ws.walk (ws.startOf path) pieces.dropLast
  let name := pieces.getLastD ""
  if !ws.hasDirectory place then .error .notDirectory
  else if name == "" || name == "." || name == ".." then .error .isDirectory
  else if Path.endsInSlash path then .error .isDirectory
  else if nameLimit < name.utf8ByteSize then .error .nameTooLong
  else if ws.hasDirectory (place ++ [name]) then .error .isDirectory
  else .ok (ws.put (place ++ [name]) (.file bytes))

end Workspace

end UtilityCss
