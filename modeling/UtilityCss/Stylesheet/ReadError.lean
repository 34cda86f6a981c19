import UtilityCss.Diagnostic.Basic

/-!
# What can be wrong with a stylesheet's text

Reading fails for three causes only.  Each carries the span it is about; the wording is in
`message`.
-/

namespace UtilityCss

/-- Why a stylesheet cannot be read. -/
inductive ReadError where
  /-- A string literal is cut off; `literal` is what was written, with the missing quote. -/
  | unterminatedString (literal : String) (span : Span)
  /-- A closing brace stands where no block is open. -/
  | missingOpeningBrace (span : Span)
  /-- The block of a rule is still open at the end; the span is that of the rule's head. -/
  | missingClosingBrace (selector : String) (span : Span)
  deriving DecidableEq, Repr

namespace ReadError

/-- What an error is about. -/
def span : ReadError → Span
  | .unterminatedString _ s => s
  | .missingOpeningBrace s => s
  | .missingClosingBrace _ s => s

def message : ReadError → String
  | .unterminatedString literal _ => "unterminated string: " ++ literal
  | .missingOpeningBrace _ => "missing opening \x7b"
  | .missingClosingBrace selector _ => "missing closing \x7d at " ++ selector

def code : ReadError → Code
  | .unterminatedString .. => .unterminatedString
  | .missingOpeningBrace _ => .missingOpeningBrace
  | .missingClosingBrace .. => .missingClosingBrace

/-- The remark shown under the source line. -/
def remark : ReadError → String
  | .unterminatedString .. => "string starts here"
  | .missingOpeningBrace _ => "no block to close"
  | .missingClosingBrace .. => "block opened here"

def diagnostic (e : ReadError) : Diagnostic :=
  (Diagnostic.ofError e.code e.message e.span).withLabel e.remark

end ReadError

end UtilityCss
