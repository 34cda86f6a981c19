import UtilityCss.Candidate.Basic
import UtilityCss.Candidate.Extract
import UtilityCss.Settings.Basic

/-!
# Reading content by file extension

A handler says how candidates are found in a text: a transformation of the whole text, followed by
an extractor for each line.  Handlers with the same `key` have the same extractor and share what is
remembered about lines.  `Handlers` finds the handler for a file extension.

`stripClassDirectives` is the transformation for component files in which `class:name=…` switches a
class on and off: the directive is taken off, so that the name stands alone.
-/

namespace UtilityCss

/-- How candidates are found in a text. -/
structure Handler where
  /-- What is done to the text first. -/
  transform : String → String
  extract : String → List String
  key : String

namespace Handler

/-- The beginning of a class directive. -/
def directiveMark : List Char := "class:".toList

/-- Takes off every class directive that stands behind a blank; that blank and the directive become
one space. -/
def stripBehindBlanks : List Char → List Char
  | [] => []
  | c :: rest =>
    if Text.isBlank c then
      match _h : Text.cutLead? directiveMark rest with
      | some after => ' ' :: stripBehindBlanks after
      | none => c :: stripBehindBlanks rest
    else c :: stripBehindBlanks rest
termination_by cs => cs.length
decreasing_by
  all_goals simp only [List.length_cons]
  all_goals first
    | omega
    | have := Text.length_le_of_cutLead? _h; omega

/-- Takes off every class directive that stands at the start or behind a blank. -/
def stripDirectives (cs : List Char) : List Char :=
  match Text.cutLead? directiveMark cs with
  | some after => ' ' :: stripBehindBlanks after
  | none => stripBehindBlanks cs

/-- A text without its class directives. -/
def stripClassDirectives (text : String) : String :=
  String.ofList (stripDirectives text.toList)

/-- Candidates as they stand in the text. -/
def plain : Handler :=
  { transform := fun text => text
    extract := Candidate.extract
    key := "default" }

/-- Candidates behind class directives. -/
def svelte : Handler :=
  { plain with transform := stripClassDirectives }

/-- The handler for a transformation of the settings. -/
def ofTransform : Transform → Handler
  | .svelte => svelte

end Handler

/-- Handlers by file extension. -/
structure Handlers where
  byExtension : Table Handler
  fallback : Handler

namespace Handlers

/-- The handlers there are without settings. -/
def builtin : Handlers :=
  ⟨Table.ofList [("svelte", .svelte)], .plain⟩

def register (hs : Handlers) (extension : String) (handler : Handler) : Handlers :=
  { hs with byExtension := hs.byExtension.insert extension handler }

/-- The built-in handlers with those of the settings. -/
def ofSettings (content : ContentSettings) : Handlers :=
  content.transforms.entries.foldl
    (fun hs (extension, transform) => hs.register extension (.ofTransform transform)) builtin

def get (hs : Handlers) (extension : String) : Handler :=
  (hs.byExtension.get? extension).getD hs.fallback

end Handlers

end UtilityCss
