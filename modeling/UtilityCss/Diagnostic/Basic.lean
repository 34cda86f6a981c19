import UtilityCss.Source.Span

/-!
# Diagnostics

What the compiler has to say about a stylesheet: a severity, a stable code, a message, the span it
is about, and optional labels, notes, help lines and a fix that can be applied as it stands.

Codes are a letter for the category and a number of at least three digits.  The hundreds tell the
stage: `0` settings and internal errors, `1` reading, `2` directives, `3` content and generation,
`4` deprecations.
-/

namespace UtilityCss

/-- How serious a diagnostic is.  Only errors stop a compile. -/
inductive Severity where
  | help
  | note
  | warning
  | error
  deriving DecidableEq, Repr, Inhabited

/-- The name of a severity in rendered text. -/
def Severity.word : Severity → String
  | .help => "help"
  | .note => "note"
  | .warning => "warning"
  | .error => "error"

/-- The name of a severity in reports for machines. -/
def Severity.tag : Severity → String
  | .help => "Help"
  | .note => "Note"
  | .warning => "Warning"
  | .error => "Error"

/-- What a code is about, shown as its first letter. -/
inductive Category where
  | error
  | warning
  | deprecation
  deriving DecidableEq, Repr, Inhabited

/-- The letter a category is shown as. -/
def Category.letter : Category → String
  | .error => "E"
  | .warning => "W"
  | .deprecation => "D"

/-- The name of a category in reports for machines. -/
def Category.tag : Category → String
  | .error => "Error"
  | .warning => "Warning"
  | .deprecation => "Deprecation"

/-- A stable name for a kind of diagnostic. -/
structure Code where
  /-- Determines the first letter. -/
  category : Category
  number : Nat
  deriving DecidableEq, Repr, Inhabited

namespace Code

/-- The code as shown: its letter and its number with at least three digits. -/
def display (c : Code) : String :=
  let digits := toString c.number
  c.category.letter ++ String.ofList (List.replicate (3 - digits.length) '0') ++ digits

/-- The compiler contradicts itself. -/
def internal : Code := ⟨.error, 0⟩
/-- The settings cannot be loaded or are not valid. -/
def invalidSettings : Code := ⟨.error, 1⟩
/-- A rule body of the settings cannot be read. -/
def invalidBody : Code := ⟨.error, 2⟩
/-- A string literal without its closing quote. -/
def unterminatedString : Code := ⟨.error, 101⟩
/-- A closing brace without an open block. -/
def missingOpeningBrace : Code := ⟨.error, 102⟩
/-- A block still open at the end. -/
def missingClosingBrace : Code := ⟨.error, 103⟩
/-- A layer block whose layer is not declared. -/
def layerWithoutDirective : Code := ⟨.error, 201⟩
/-- A legacy block without the utilities layer. -/
def legacyWithoutUtilities : Code := ⟨.error, 202⟩
/-- A content file that cannot be read. -/
def contentUnreadable : Code := ⟨.error, 301⟩
/-- The utilities layer came out empty. -/
def noUtilities : Code := ⟨.warning, 301⟩
/-- A legacy at-rule. -/
def deprecatedAtRule : Code := ⟨.deprecation, 401⟩

end Code

/-- A span with a remark about it. -/
structure Label where
  span : Span
  message : String
  deriving DecidableEq, Repr, Inhabited

/-- A piece of source and what should stand in its place. -/
structure Replacement where
  span : Span
  newText : String
  deriving DecidableEq, Repr, Inhabited

/-- A change to the source that can be made without asking. -/
structure Fix where
  message : String
  replacements : List Replacement
  deriving DecidableEq, Repr, Inhabited

/-- A message about a stylesheet. -/
structure Diagnostic where
  severity : Severity
  code : Code
  message : String
  /-- What it is about; `Span.nowhere` without a place in a source. -/
  span : Span
  /-- Remarks on single spans; the first is shown under the source line. -/
  labels : List Label
  /-- Background. -/
  notes : List String
  /-- Advice. -/
  help : List String
  fix : Option Fix
  deriving DecidableEq, Repr, Inhabited

namespace Diagnostic

def ofError (code : Code) (message : String) (span : Span) : Diagnostic :=
  ⟨.error, code, message, span, [], [], [], none⟩

def ofWarning (code : Code) (message : String) (span : Span) : Diagnostic :=
  ⟨.warning, code, message, span, [], [], [], none⟩

/-- Labels the span the diagnostic is about. -/
def withLabel (d : Diagnostic) (message : String) : Diagnostic :=
  { d with labels := d.labels ++ [⟨d.span, message⟩] }

def withNote (d : Diagnostic) (note : String) : Diagnostic :=
  { d with notes := d.notes ++ [note] }

def withHelp (d : Diagnostic) (help : String) : Diagnostic :=
  { d with help := d.help ++ [help] }

/-- Sets the change that settles the matter. -/
def withFix (d : Diagnostic) (fix : Fix) : Diagnostic :=
  { d with fix := some fix }

end Diagnostic

end UtilityCss
