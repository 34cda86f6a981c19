import UtilityCss.Settings.Decode
import UtilityCss.Toml.Document

/-!
# Loading settings

Settings are read from the entries of a document, from its text, or from a file.  In all three
cases they are checked before they are handed out.

`ContentSettings.paths` lists the files that the content patterns stand for.  A pattern without
wildcards is taken as it is, so that a missing file is noticed when it is read; others stand for
the files they match.  A path that was listed already is not listed again.
-/

namespace UtilityCss

namespace Settings

/-- The settings in the entries of a document, checked. -/
def ofEntries (entries : Toml.Entries) : Except SettingsError Settings :=
  match ofEntries? entries with
  | some settings => settings.check
  | none => .error .malformed

/-- The settings in the text of a document, checked. -/
def ofText (text : String) : Except SettingsError Settings :=
  match Toml.document? text with
  | some entries => ofEntries entries
  | none => .error .malformed

/-- The settings in a file, checked. -/
def load (ws : Workspace) (path : String) : Except SettingsError Settings :=
  match ws.readText path with
  | .ok text => ofText text
  | .error cause => .error (.unreadable cause)

end Settings

/-! ## The files of the content patterns -/

/-- The paths of a list that are not listed before, perhaps in another spelling; `seen` holds the
parts of those that are. -/
def distinctPaths (seen : List (List String)) : List String → List String
  | [] => []
  | path :: rest =>
    let parts := Path.parts path
    if seen.contains parts then distinctPaths seen rest
    else path :: distinctPaths (parts :: seen) rest

/-- The paths that one pattern stands for, seen from a directory. -/
def patternPaths (ws : Workspace) (root pattern : String) : Except SettingsError (List String) :=
  let full := Path.join root pattern
  if Glob.hasWildcard pattern then
    match Glob.paths ws full with
    | .ok found => .ok (found.filter fun path => !ws.isDirectory path)
    | .error fault => .error (.invalidPattern pattern fault)
  else .ok [full]

/-- The files that the content patterns stand for, in the order of the patterns. -/
def ContentSettings.paths (content : ContentSettings) (ws : Workspace) (root : String) :
    Except SettingsError (List String) := do
  let found ← content.files.mapM (patternPaths ws root)
  return distinctPaths [] found.flatten

end UtilityCss
