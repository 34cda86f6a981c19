import UtilityCss.Diagnostic.Basic
import UtilityCss.Files.Glob
import UtilityCss.Table
import UtilityCss.Text.Blank

/-!
# Settings

The settings of a project say where class names are looked for, how candidates are written, and
which rules there are.  Every part may be missing; `Settings.default` scans nothing and has no
rules.

* **Content** — file patterns, texts given in place, and per file extension a transformation that
  runs before class names are looked for.
* **Options** — the separator between variants, whether utilities are important, and two limits.
* **Rules** — bodies of base, component and utility rules, default declarations, and templates of
  variants, each under its name.

`Settings.check` tells which settings make sense, and `SettingsError` why others cannot be used.
-/

namespace UtilityCss

/-- A change made to a text before class names are looked for. -/
inductive Transform where
  /-- `class:` in front of a class name is taken off. -/
  | svelte
  deriving DecidableEq, Repr

/-- A text given in the settings, to be scanned like a file. -/
structure RawContent where
  text : String
  /-- The file extension that decides how the text is read. -/
  extension : String
  deriving DecidableEq, Repr

/-- Where class names are looked for. -/
structure ContentSettings where
  files : List String := []
  raw : List RawContent := []
  transforms : Table Transform := .empty

/-- How candidates are written and scanned. -/
structure Options where
  /-- What stands between the variants of a candidate and behind the last of them. -/
  separator : String := ":"
  /-- Whether the declarations of all utilities are important. -/
  important : Bool := false
  lineCapacity : Nat := 25000
  batchSize : Nat := 500

/-- The settings of a project. -/
structure Settings where
  content : ContentSettings := {}
  options : Options := {}
  base : Table String := .empty
  components : Table String := .empty
  utilities : Table String := .empty
  /-- Values of default declarations by property. -/
  defaults : Table String := .empty
  /-- Templates of variants by name: a selector with `&`, or the head of an at-rule. -/
  variants : Table String := .empty

/-- The settings of a project that has none. -/
def Settings.default : Settings := {}

/-! ## What can be wrong -/

/-- A setting that makes no sense. -/
inductive SettingsFault where
  | emptySeparator
  | zeroBatchSize
  | zeroLineCapacity
  /-- A template that has no `&` and is no at-rule. -/
  | untargetedVariant (name template : String)
  deriving DecidableEq, Repr

def SettingsFault.message : SettingsFault → String
  | .emptySeparator => "options.separator must not be empty"
  | .zeroBatchSize => "options.batch_size must be at least 1"
  | .zeroLineCapacity => "options.line_cache_capacity must be at least 1"
  | .untargetedVariant name template =>
    "variant '" ++ name ++ "' must contain '&' or start with '@', got '" ++ template ++ "'"

/-- Why settings cannot be used. -/
inductive SettingsError where
  | unreadable (cause : FileError)
  /-- They are no document, or a value is of the wrong kind. -/
  | malformed
  | invalidPattern (pattern : String) (fault : PatternError)
  | invalid (fault : SettingsFault)
  deriving DecidableEq, Repr

namespace SettingsError

def message : SettingsError → String
  | .unreadable cause => "failed to read configuration: " ++ cause.message
  | .malformed => "failed to parse configuration: the document is not valid"
  | .invalidPattern pattern fault =>
    "invalid content pattern '" ++ pattern ++ "': " ++ fault.message
  | .invalid fault => "validation error: " ++ fault.message

/-- An error as a diagnostic, which points at no stylesheet. -/
def diagnostic (e : SettingsError) : Diagnostic :=
  .ofError .invalidSettings e.message .nowhere

end SettingsError

/-! ## Settings that make sense -/

/-- Whether a template says where the rule it is applied to goes. -/
def isTargeted (template : String) : Bool :=
  template.toList.contains '&' || template.toList.head? == some '@'

/-- The first variant, in order of names, whose template is not targeted. -/
def firstUntargeted : List (String × String) → Option SettingsFault
  | [] => none
  | (name, template) :: rest =>
    if isTargeted (Text.trimmed template) then firstUntargeted rest
    else some (.untargetedVariant name (Text.trimmed template))

/-- The first fault of settings. -/
def Settings.fault? (s : Settings) : Option SettingsFault :=
  if s.options.separator.isEmpty then some .emptySeparator
  else if s.options.batchSize == 0 then some .zeroBatchSize
  else if s.options.lineCapacity == 0 then some .zeroLineCapacity
  else firstUntargeted s.variants.entries

/-- Settings that have no fault. -/
def Settings.check (s : Settings) : Except SettingsError Settings :=
  match s.fault? with
  | some fault => .error (.invalid fault)
  | none => .ok s

end UtilityCss
