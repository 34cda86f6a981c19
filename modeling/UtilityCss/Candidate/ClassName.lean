/-!
# Class names in selectors

A class name may hold any character, a selector may not.  `escapeClassName` writes a name so that it
can stand behind the dot of a class selector: a character with a meaning of its own gets a
backslash, and a digit where an identifier cannot begin with one is written as a hexadecimal escape,
which a space ends.
-/

namespace UtilityCss.Candidate

/-- Whether a character may stand in an identifier as it is. -/
def isNameChar (c : Char) : Bool :=
  c.isAlphanum || c == '-' || c == '_' || 0x80 ≤ c.toNat

def escapeChar (c : Char) : List Char :=
  if isNameChar c then [c] else ['\\', c]

/-- A character by its code in hexadecimal digits. -/
def escapeCode (c : Char) : List Char :=
  '\\' :: Nat.toDigits 16 c.toNat ++ [' ']

/-- The characters of a name as those of an identifier. -/
def escapeName : List Char → List Char
  | '-' :: c :: rest =>
    if c.isDigit then '-' :: (escapeCode c ++ rest.flatMap escapeChar)
    else '-' :: (escapeChar c ++ rest.flatMap escapeChar)
  | c :: rest =>
    if c.isDigit then escapeCode c ++ rest.flatMap escapeChar
    else escapeChar c ++ rest.flatMap escapeChar
  | [] => []

/-- A class name as it stands behind the dot of a class selector. -/
def escapeClassName (name : String) : String :=
  String.ofList (escapeName name.toList)

end UtilityCss.Candidate
