/-!
# Reports for machines

Reports are written as JSON over several lines: two spaces for each level, one member to a line, a
space behind the colon, and no line breaks in empty arrays and objects.  Of the characters of a
text, quotes, backslashes and control characters are escaped; all others stand for themselves.
-/

namespace UtilityCss

/-- A value of a report. -/
inductive Json where
  | null
  | boolean (b : Bool)
  | number (n : Nat)
  | text (s : String)
  | array (items : List Json)
  | object (members : List (String × Json))
  deriving Repr, Inhabited

namespace Json

/-- A character of a text, as it stands between quotes. -/
def escapeChar (c : Char) : String :=
  if c = '"' then "\\\""
  else if c = '\\' then "\\\\"
  else if c = '\n' then "\\n"
  else if c = '\r' then "\\r"
  else if c = '\t' then "\\t"
  else if c = '\x08' then "\\b"
  else if c = '\x0c' then "\\f"
  else if c.toNat < 0x20 then
    "\\u00" ++ String.ofList [Nat.digitChar (c.toNat / 16), Nat.digitChar (c.toNat % 16)]
  else c.toString

def quoted (s : String) : String :=
  "\"" ++ String.join (s.toList.map escapeChar) ++ "\""

/-- A line break and the indentation of a level. -/
def newline (level : Nat) : String :=
  "\n" ++ String.ofList (List.replicate (2 * level) ' ')

mutual

/-- A value at a level. -/
def pretty (level : Nat) : Json → String
  | .null => "null"
  | .boolean b => if b then "true" else "false"
  | .number n => toString n
  | .text s => quoted s
  | .array [] => "[]"
  | .array (item :: rest) =>
    "[" ++ newline (level + 1) ++ pretty (level + 1) item ++ prettyItems (level + 1) rest ++
      newline level ++ "]"
  | .object [] => "\x7b\x7d"
  | .object ((name, value) :: rest) =>
    "\x7b" ++ newline (level + 1) ++ quoted name ++ ": " ++ pretty (level + 1) value ++
      prettyMembers (level + 1) rest ++ newline level ++ "\x7d"

/-- The items of an array behind the first. -/
def prettyItems (level : Nat) : List Json → String
  | [] => ""
  | item :: rest => "," ++ newline level ++ pretty level item ++ prettyItems level rest

/-- The members of an object behind the first. -/
def prettyMembers (level : Nat) : List (String × Json) → String
  | [] => ""
  | (name, value) :: rest =>
    "," ++ newline level ++ quoted name ++ ": " ++ pretty level value ++ prettyMembers level rest

end

def print (j : Json) : String := pretty 0 j

end Json

end UtilityCss
