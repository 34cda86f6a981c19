import UtilityCss.Command.Arguments
import UtilityCss.Settings.Load

/-!
# The project of a run

A project is its settings and the directory that content patterns start from.  The settings are in
the file that the arguments name, or in the directory they name, or else in the nearest settings
file at or above the working directory.  Without any, the defaults hold and patterns start from the
working directory.
-/

namespace UtilityCss.Command

def settingsName : String := "tack.toml"

/-- Settings, and the directory that content patterns start from. -/
structure Project where
  settings : Settings
  root : String

def absolutePath (place : Files.Place) : String :=
  "/" ++ String.intercalate "/" place

/-- The settings files that count for a working directory, the nearest first. -/
def settingsPaths (here : Files.Place) : List String :=
  ((List.range (here.length + 1)).reverse.map fun n =>
    Path.join (absolutePath (here.take n)) settingsName)

/-- The settings file of a run, if there is one. -/
def settingsPath? (ws : Workspace) (config : Option String) : Option String :=
  match config with
  | some path => some (if ws.isDirectory path then Path.join path settingsName else path)
  | none => (settingsPaths ws.here).find? ws.isFile

def Project.load (ws : Workspace) (config : Option String) : Except SettingsError Project :=
  match settingsPath? ws config with
  | some path => do
    let settings ← Settings.load ws path
    return { settings, root := (Path.parent? path).getD "." }
  | none => .ok { settings := .default, root := absolutePath ws.here }

end UtilityCss.Command
