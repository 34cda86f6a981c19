import UtilityCss.Toml.Number

/-!
# Reading a TOML document

A document is a sequence of lines: headers, headers in double brackets, and keys with their values.
`document?` reads the lines one after the other and builds the table of the whole document; it
answers nothing if the text is no document, a key is given twice, or a header is out of place.

Brackets nest at most `nestingLimit` deep and a key has at most `nestingLimit` dots fewer one, which
bounds the recursion over values.  Loops over items and lines are bounded by the length of the text,
since each round takes at least one character off it.
-/

namespace UtilityCss.Toml

/-- How deep brackets may nest, and how many parts a dotted key may have. -/
def nestingLimit : Nat := 79

/-- A reader of values. -/
abbrev ValueReader := List Char → Option (Value × List Char)

/-! ## Arrays and tables in braces -/

/-- The items of an array up to its closing bracket, at most `n` of them. -/
def arrayItems? (value : ValueReader) : (n : Nat) → List Char → Option (List Value × List Char)
  | 0, _ => none
  | n + 1, cs => do
    match ← skipTrivia? false cs with
    | ']' :: rest => return ([], rest)
    | cs =>
      let (item, rest) ← value cs
      match ← skipTrivia? false rest with
      | ',' :: rest =>
        let (items, rest) ← arrayItems? value n rest
        return (item :: items, rest)
      | ']' :: rest => return ([item], rest)
      | _ => none

/-- A key with its value. -/
def keyValue? (value : ValueReader) (cs : List Char) :
    Option (List String × Value × List Char) := do
  match ← dottedKey? nestingLimit cs with
  | (keys, '=' :: rest) =>
    let (v, rest) ← value (dropBlanks rest)
    return (keys, v, rest)
  | _ => none

/-- Adds a value to a table under the keys of its line. -/
def insertKeys? (keys : List String) (value : Value) (origin : Origin) (entries : Entries) :
    Option (Origin × Entries) := do
  Value.insert? keys.dropLast (← keys.getLast?) value origin entries

/-- The entries of a table in braces up to the closing one, at most `n` of them, added to those read
before. -/
def braceEntries? (value : ValueReader) : (n : Nat) → Entries → List Char →
    Option (Entries × List Char)
  | 0, _, _ => none
  | n + 1, entries, cs => do
    let (keys, v, rest) ← keyValue? value cs
    let (_, entries) ← insertKeys? keys v .braces entries
    match dropBlanks rest with
    | ',' :: rest => braceEntries? value n entries rest
    | '}' :: rest => return (entries, rest)
    | _ => none

/-- A value in which brackets nest at most `depth` deep. -/
def value? : (depth : Nat) → ValueReader
  | 0, cs => scalarValue? cs
  | depth + 1, cs =>
    match cs with
    | '[' :: rest => do
      let (items, rest) ← arrayItems? (value? depth) (rest.length + 1) rest
      return (.array items, rest)
    | '{' :: rest =>
      match dropBlanks rest with
      | '}' :: rest => some (.table .braces [], rest)
      | rest => do
        let (entries, rest) ← braceEntries? (value? depth) (rest.length + 1) [] rest
        return (.table .braces entries, rest)
    | _ => scalarValue? cs
where
  /-- A string or a word. -/
  scalarValue? (cs : List Char) : Option (Value × List Char) :=
    match cs with
    | '"' :: _ => (string? cs).map fun (text, rest) => (.string (String.ofList text), rest)
    | '\'' :: _ => (string? cs).map fun (text, rest) => (.string (String.ofList text), rest)
    | _ =>
      let (word, rest) := splitWord cs
      (word? word).map (·, rest)

/-! ## Lines -/

/-- A line of a document that says something. -/
inductive Line where
  /-- A header: the keys that lead to its table. -/
  | header (keys : List String)
  /-- A header in double brackets. -/
  | rowHeader (keys : List String)
  /-- A key with its value. -/
  | entry (keys : List String) (value : Value)

/-- The line in front of a text, without its end, and what follows. -/
def line? (cs : List Char) : Option (Line × List Char) :=
  match cs with
  | '[' :: '[' :: rest => do
    match ← dottedKey? nestingLimit rest with
    | (keys, ']' :: ']' :: rest) => return (.rowHeader keys, rest)
    | _ => none
  | '[' :: rest => do
    match ← dottedKey? nestingLimit rest with
    | (keys, ']' :: rest) => return (.header keys, rest)
    | _ => none
  | _ => do
    let (keys, v, rest) ← keyValue? (value? nestingLimit) cs
    return (.entry keys v, rest)

/-- The lines of a document, at most `n` of them. -/
def lines? : (n : Nat) → List Char → Option (List Line)
  | 0, _ => none
  | n + 1, cs =>
    match dropBlanks cs with
    | [] => some []
    | c :: rest =>
      if c == '\n' || c == '\r' || c == '#' then do
        lines? n (← lineEnd? (c :: rest))
      else do
        let (line, rest) ← line? (c :: rest)
        let lines ← lines? n (← lineEnd? rest)
        return line :: lines

/-! ## The document -/

/-- The document as far as it was read: its table, and the keys of the header in force. -/
structure Draft where
  entries : Entries := []
  /-- The keys of the header in force. -/
  here : List String := []

/-- Adds a line to a document. -/
def Draft.add? (d : Draft) : Line → Option Draft
  | .header keys => do
    let entries ← Value.startTable? keys.dropLast (← keys.getLast?) d.entries
    return ⟨entries, keys⟩
  | .rowHeader keys => do
    let entries ← Value.startRow? keys.dropLast (← keys.getLast?) d.entries
    return ⟨entries, keys⟩
  | .entry keys value => do
    let (_, entries) ← Value.update? false (insertKeys? keys value) d.here .header d.entries
    return { d with entries }

/-- A text without the byte order mark in front. -/
def dropByteOrderMark : List Char → List Char
  | '\uFEFF' :: rest => rest
  | cs => cs

/-- The entries of a document. -/
def document? (text : String) : Option Entries := do
  let cs := dropByteOrderMark text.toList
  let lines ← lines? (cs.length + 1) cs
  let draft ← lines.foldlM Draft.add? {}
  return draft.entries

end UtilityCss.Toml
