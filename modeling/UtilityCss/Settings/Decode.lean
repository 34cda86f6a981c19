import UtilityCss.Settings.Basic
import UtilityCss.Toml.Value

/-!
# Settings from a document

The tables of a document become settings field by field.  A field that is missing takes its
default, a key that is no field is passed over, and a value of the wrong kind makes the whole
document unusable.

A group of fields is usually a table, which names them.  It may also be an array, which gives them
in order and may stop early; a date has no field that a group knows.
-/

namespace UtilityCss.Settings

open Toml

/-! ## Fields -/

/-- The value of a field in a group, found by name or by position.  The outer `none` says that the
value is no group at all. -/
def fieldOf? (group : Value) (name : String) (index : Nat) : Option (Option Value) :=
  match group with
  | .table _ entries => some (entries.lookup name)
  | .array items => some items[index]?
  | .rows tables => some tables[index]?
  | .moment _ => some none
  | _ => none

/-- A field that may be missing. -/
def fieldOr {α : Type} (fallback : α) (decode : Value → Option α) (group : Value) (name : String)
    (index : Nat) : Option α := do
  match ← fieldOf? group name index with
  | some value => decode value
  | none => some fallback

/-! ## Values -/

def text? : Value → Option String
  | .string text => some text
  | _ => none

def boolean? : Value → Option Bool
  | .boolean b => some b
  | _ => none

/-- A number that is not negative. -/
def count? : Value → Option Nat
  | .integer (.ofNat n) => some n
  | _ => none

def items? : Value → Option (List Value)
  | .array items => some items
  | .rows tables => some tables
  | _ => none

/-- One text, or an array of them. -/
def texts? : Value → Option (List String)
  | .string text => some [text]
  | value => do (← items? value).mapM text?

/-- The key under which a date is an entry of a table of texts. -/
def momentKey : String := "$__toml_private_datetime"

def textTable? : Value → Option (Table String)
  | .table _ entries => do
    return Table.ofList (← entries.mapM fun (key, value) => (text? value).map (key, ·))
  | .moment text => some (Table.ofList [(momentKey, text)])
  | _ => none

/-- The name of a transformation. -/
def transformNamed? (name : String) : Option Transform :=
  if name == "svelte" then some .svelte else none

/-- Whether a value holds nothing, as behind the name of a transformation it must. -/
def holdsNothing : Value → Bool
  | .array items => items.isEmpty
  | .table _ entries => entries.isEmpty
  | _ => false

/-- A transformation: its name, or a table with the name as its only key. -/
def transform? : Value → Option Transform
  | .string name => transformNamed? name
  | .table _ [(name, value)] => if holdsNothing value then transformNamed? name else none
  | _ => none

def transformTable? : Value → Option (Table Transform)
  | .table _ entries => do
    return Table.ofList (← entries.mapM fun (key, value) => (transform? value).map (key, ·))
  | _ => none

/-! ## Groups -/

/-- A text given in place; it must say what the text is. -/
def rawContent? (group : Value) : Option RawContent := do
  let text ← text? (← ← fieldOf? group "content" 0)
  let extension ← fieldOr "html" text? group "extension" 1
  return ⟨text, extension⟩

def rawContents? (value : Value) : Option (List RawContent) := do
  (← items? value).mapM rawContent?

/-- Where class names are looked for. -/
def content? (group : Value) : Option ContentSettings := do
  let files ← fieldOr [] texts? group "files" 0
  let raw ← fieldOr [] rawContents? group "raw" 1
  let transforms ← fieldOr .empty transformTable? group "transform" 2
  return { files, raw, transforms }

/-- How candidates are written and scanned. -/
def options? (group : Value) : Option Options := do
  let separator ← fieldOr ":" text? group "separator" 0
  let important ← fieldOr false boolean? group "important" 1
  let lineCapacity ← fieldOr 25000 count? group "line_cache_capacity" 2
  let batchSize ← fieldOr 500 count? group "batch_size" 3
  return { separator, important, lineCapacity, batchSize }

/-- The settings in the entries of a document. -/
def ofEntries? (entries : Entries) : Option Settings := do
  let document := Value.table .header entries
  let content ← fieldOr {} content? document "content" 0
  let options ← fieldOr {} options? document "options" 1
  let base ← fieldOr .empty textTable? document "base" 2
  let components ← fieldOr .empty textTable? document "components" 3
  let utilities ← fieldOr .empty textTable? document "utilities" 4
  let defaults ← fieldOr .empty textTable? document "defaults" 5
  let variants ← fieldOr .empty textTable? document "variants" 6
  return { content, options, base, components, utilities, defaults, variants }

end UtilityCss.Settings
