/-!
# TOML values

A settings file is a TOML document.  Its values are texts, integers, floats, booleans, dates and
times, arrays and tables.  Nothing in the settings is a float, so a float is only known to be one.

Tables remember how they came about, because that decides whether later lines may add to them:

* a table written in braces is complete where it stands;
* a table with a header of its own must not get a second one, nor grow by dotted keys;
* a table that only leads to another header may still get its own header;
* a table that dotted keys lead to may grow by more dotted keys.

`update?` walks down a path of keys under these rules and changes the table at its end.
-/

namespace UtilityCss.Toml

/-- How a table came about. -/
inductive Origin where
  | braces
  /-- It has a header, or is the document itself. -/
  | header
  /-- It lies on the way to a header. -/
  | implied
  /-- It lies on the way of a dotted key. -/
  | dotted
  deriving DecidableEq, Repr

/-- A value of a document. -/
inductive Value where
  | string (text : String)
  | integer (n : Int)
  | float
  | boolean (b : Bool)
  /-- A date, a time, or both, in its usual form. -/
  | moment (text : String)
  | array (items : List Value)
  | table (origin : Origin) (entries : List (String × Value))
  /-- Tables that share a header in double brackets. -/
  | rows (tables : List Value)
  deriving Repr, Inhabited

/-- The entries of a table, in the order they were written. -/
abbrev Entries := List (String × Value)

namespace Value

/-- Replaces the value of the first entry with a key. -/
def replaceEntry (key : String) (value : Value) : Entries → Entries
  | [] => []
  | (other, old) :: rest =>
    if other = key then (other, value) :: rest else (other, old) :: replaceEntry key value rest

/-- Whether a walk may enter a table, by dotted keys or by a header. -/
def mayEnter (byDots : Bool) : Origin → Bool
  | .braces => false
  | .header => !byDots
  | .implied => true
  | .dotted => true

/-- What a walk makes of a table that is missing on its way. -/
def originOf (byDots : Bool) : Origin :=
  if byDots then .dotted else .implied

/-- Changes the table at the end of a path.  Missing tables on the way are made; of tables that
share a header, the last is entered. -/
def update? (byDots : Bool) (change : Origin → Entries → Option (Origin × Entries)) :
    List String → Origin → Entries → Option (Origin × Entries)
  | [], origin, entries => change origin entries
  | key :: path, origin, entries =>
    match entries.lookup key with
    | none => do
      let (o, es) ← update? byDots change path (originOf byDots) []
      return (origin, entries ++ [(key, .table o es)])
    | some (.table o es) =>
      if mayEnter byDots o then do
        let (o, es) ← update? byDots change path o es
        return (origin, replaceEntry key (.table o es) entries)
      else none
    | some (.rows tables) =>
      match tables.getLast? with
      | some (.table o es) => do
        let (o, es) ← update? byDots change path o es
        return (origin, replaceEntry key (.rows (tables.dropLast ++ [.table o es])) entries)
      | _ => none
    | some _ => none

/-- Adds a value under a dotted key.  The last table on the way must come from dotted keys as well,
and must not have the key. -/
def insert? (path : List String) (key : String) (value : Value) (origin : Origin)
    (entries : Entries) : Option (Origin × Entries) :=
  update? true (fun o es =>
    if (o == .dotted) == path.isEmpty then none
    else if (es.lookup key).isSome then none
    else some (o, es ++ [(key, value)])) path origin entries

/-- Starts the table with a header. -/
def startTable? (path : List String) (key : String) (entries : Entries) : Option Entries := do
  let (_, es) ← update? false (fun o es =>
    match es.lookup key with
    | none => some (o, es ++ [(key, .table .header [])])
    | some (.table .implied inner) => some (o, replaceEntry key (.table .header inner) es)
    | some _ => none) path .header entries
  return es

/-- Starts another of the tables that share a header in double brackets. -/
def startRow? (path : List String) (key : String) (entries : Entries) : Option Entries := do
  let (_, es) ← update? false (fun o es =>
    match es.lookup key with
    | none => some (o, es ++ [(key, .rows [.table .header []])])
    | some (.rows tables) => some (o, replaceEntry key (.rows (tables ++ [.table .header []])) es)
    | some _ => none) path .header entries
  return es

end Value

end UtilityCss.Toml
