/-!
# Paths

A path is a text of pieces between slashes.  It names a file only together with a working
directory, and two texts may be the same path: doubled slashes, slashes at the end and inner `.`
pieces do not count.  `parts` is what is left, so equal `parts` mean equal paths.

* **Taking apart** — `pieces`, `named`, `parts`, `parent?`, `extension`.
* **Putting together** — `join`, in which an absolute path discards what stands in front of it.
-/

namespace UtilityCss.Path

/-- The texts between the slashes of a path. -/
def pieces (path : String) : List String :=
  (path.toList.splitOn '/').map String.ofList

/-- The texts between the slashes of a path that are not empty. -/
def named (path : String) : List String :=
  (pieces path).filter (· != "")

def endsInSlash (path : String) : Bool :=
  path.toList.getLast? == some '/'

def isAbsolute (path : String) : Bool :=
  path.toList.head? == some '/'

/-- The pieces that count: the root as a piece of its own, a leading `.` of a relative path, and
all pieces that are neither empty nor `.`. -/
def parts (path : String) : List String :=
  let kept := (named path).filter (· != ".")
  if isAbsolute path then "/" :: kept
  else if (pieces path).head? == some "." then "." :: kept
  else kept

/-- The path of `path` as seen from the directory `base`. -/
def join (base path : String) : String :=
  if isAbsolute path || base.isEmpty then path
  else if endsInSlash base then base ++ path
  else base ++ "/" ++ path

/-- A reversed path without the slashes, and the `.` pieces between slashes, that it begins with. -/
def dropIdle : List Char → List Char
  | '/' :: rest => dropIdle rest
  | '.' :: '/' :: rest => dropIdle ('/' :: rest)
  | cs => cs

/-- The directory a path lies in, if the path has a last part. -/
def parent? (path : String) : Option String :=
  let reversed := dropIdle path.toList.reverse
  match reversed.dropWhile (· != '/') with
  | [] => if reversed.isEmpty then none else some ""
  | rest =>
    match dropIdle rest with
    | [] => some "/"
    | dir => some (String.ofList dir.reverse)

/-- The last part of a path, if it is the name of an entry. -/
def fileName? (path : String) : Option String :=
  match (parts path).getLast? with
  | some name => if name == "/" || name == "." || name == ".." then none else some name
  | none => none

/-- What follows the last dot of the file name.  A name without a dot, or with its only dot in
front, has no extension. -/
def extension (path : String) : String :=
  match fileName? path with
  | none => ""
  | some name =>
    let reversed := name.toList.reverse
    let suffix := reversed.takeWhile (· != '.')
    match reversed.dropWhile (· != '.') with
    | '.' :: _ :: _ => String.ofList suffix.reverse
    | _ => ""

end UtilityCss.Path
