import UtilityCss.Diagnostic.Basic
import UtilityCss.Source.Text

/-!
# Diagnostics on a terminal

A diagnostic is shown as a header, the source line it is about with the span underlined, and its
notes, help lines and fix:

```
error[E201]: `@layer components` is used but no matching `@tailwind components` directive is present.
  --> app.css:3:1
  |
3 | @layer components {
  | ^^^^^^^^^^^^^^^^^^^ layer used here
   = help: add `@tailwind components;` to the stylesheet
```

A span over several lines is underlined to the end of its first line, and at least one caret is
always drawn.  There is no rendering for a span that begins inside a character.
-/

namespace UtilityCss.Diagnostic

/-- The escape sequence that colours the header and the underline. -/
def colour : Severity → String
  | .error => "1;31"
  | .warning => "1;33"
  | .note => "1;36"
  | .help => "1;36"

/-- A text in the colour of a severity, if colours are wanted. -/
def paint (coloured : Bool) (severity : Severity) (text : String) : String :=
  if coloured then "\x1b[" ++ colour severity ++ "m" ++ text ++ "\x1b[0m" else text

def repeated (c : Char) (n : Nat) : String :=
  String.ofList (List.replicate n c)

/-- How many carets stand under a line of `lineLength` bytes for a span of `length` bytes that
begins in column `col`. -/
def caretCount (lineLength col length : Nat) : Nat :=
  max 1 (min length (max (lineLength - (col - 1)) 1))

/-- The severity and code of a diagnostic, with its message. -/
def header (coloured : Bool) (d : Diagnostic) : String :=
  paint coloured d.severity (d.severity.word ++ "[" ++ d.code.display ++ "]") ++ ": " ++
    d.message ++ "\n"

/-- The source line a diagnostic is about, with its span underlined; empty if the library does
not know the source. -/
def excerpt? (coloured : Bool) (lib : Library) (d : Diagnostic) : Option String :=
  match lib.get? d.span.file, lib.place? d.span with
  | some source, some place => do
    let (line, col) := source.lineCol d.span.start
    let text ← source.lineText? d.span.start
    let number := toString line
    let margin := repeated ' ' number.length
    let carets := repeated '^' (caretCount text.utf8ByteSize col d.span.length)
    let remark := match d.labels.head? with
      | some label => " " ++ label.message
      | none => ""
    return "  --> " ++ place.display ++ "\n" ++
      margin ++ " |\n" ++
      number ++ " | " ++ text ++ "\n" ++
      margin ++ " | " ++ repeated ' ' (col - 1) ++ paint coloured d.severity carets ++ remark ++ "\n"
  | _, _ => some ""

/-- The notes, help lines and fix of a diagnostic, one to a line. -/
def remarks (d : Diagnostic) : String :=
  String.join (d.notes.map fun note => "   = note: " ++ note ++ "\n") ++
  String.join (d.help.map fun help => "   = help: " ++ help ++ "\n") ++
  match d.fix with
  | some fix => "   = fix: " ++ fix.message ++ "\n"
  | none => ""

/-- The whole text shown for a diagnostic. -/
def render? (coloured : Bool) (lib : Library) (d : Diagnostic) : Option String := do
  let excerpt ← excerpt? coloured lib d
  return header coloured d ++ excerpt ++ remarks d

end UtilityCss.Diagnostic
