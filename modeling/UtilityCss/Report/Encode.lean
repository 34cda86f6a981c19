import UtilityCss.Diagnostic.Basic
import UtilityCss.Report.Json
import UtilityCss.Stylesheet.Node

/-!
# Trees and diagnostics in reports

The members of each object and their order are fixed, so that reports can be compared as texts.
-/

namespace UtilityCss

/-- A span in a report. -/
def Span.toJson (s : Span) : Json :=
  .object [("file", .number s.file), ("start", .number s.start), ("end", .number s.stop)]

/-- A span that may be missing. -/
def Span.toJson? : Option Span → Json
  | some s => s.toJson
  | none => .null

namespace Node

mutual

/-- A tree in a report. -/
def toJson : Node → Json
  | .rule selector nodes hasBlock span =>
    .object [("kind", .text "rule"), ("selector", .text selector),
      ("nodes", .array (toJsonAll nodes)), ("has_block", .boolean hasBlock),
      ("span", Span.toJson? span)]
  | .declaration property value important span =>
    .object [("kind", .text "declaration"), ("property", .text property), ("value", .text value),
      ("important", .boolean important), ("span", Span.toJson? span)]
  | .comment text span =>
    .object [("kind", .text "comment"), ("text", .text text), ("span", Span.toJson? span)]

def toJsonAll : List Node → List Json
  | [] => []
  | node :: rest => toJson node :: toJsonAll rest

end

end Node

def Code.toJson (c : Code) : Json :=
  .object [("category", .text c.category.tag), ("number", .number c.number)]

def Label.toJson (l : Label) : Json :=
  .object [("span", l.span.toJson), ("message", .text l.message)]

def Replacement.toJson (r : Replacement) : Json :=
  .object [("span", r.span.toJson), ("new_text", .text r.newText)]

def Fix.toJson (f : Fix) : Json :=
  .object [("message", .text f.message),
    ("replacements", .array (f.replacements.map Replacement.toJson))]

def Diagnostic.toJson (d : Diagnostic) : Json :=
  .object [("severity", .text d.severity.tag), ("code", d.code.toJson),
    ("message", .text d.message), ("primary_span", d.span.toJson),
    ("labels", .array (d.labels.map Label.toJson)), ("notes", .array (d.notes.map .text)),
    ("help", .array (d.help.map .text)),
    ("fix", match d.fix with
      | some f => f.toJson
      | none => .null)]

end UtilityCss
