import UtilityCss.Candidate.Basic
import UtilityCss.Candidate.ClassName
import UtilityCss.Rule.Layer
import UtilityCss.Settings.Basic
import UtilityCss.Stylesheet.Reader

/-!
# Rules from settings

The bodies and templates of the settings, read once, make up a `RuleBook`, which answers the rules
of a candidate.

* The candidate that belongs to every build gets the default declarations and all base rules.
* Any other candidate consists of variants and a base.  The base, without an exclamation mark in
  front, names a utility or else a component; every variant must have a template.  The selector is
  the escaped candidate put into the selector templates, the last variant innermost, and the rule is
  wrapped into the at-rule templates in the same order.
* Declarations are important if the base has the exclamation mark, and those of utilities also if
  the settings say so.

A body is read between the braces of a rule, so its last semicolon may be missing.
-/

namespace UtilityCss

/-- What a variant does to a rule. -/
inductive Variant where
  /-- Puts the selector in place of each `&`. -/
  | selector (template : String)
  | atRule (head : String)
  deriving DecidableEq, Repr, Inhabited

/-- The variant of a template. -/
def Variant.ofTemplate (template : String) : Variant :=
  let template := Text.trimmed template
  if Node.isAtRuleSelector template then .atRule template else .selector template

/-- A selector with a variant. -/
def Variant.onSelector : Variant → List Char → List Char
  | .selector template, inner => Text.replaceChar '&' inner template.toList
  | .atRule _, inner => inner

/-- A rule with a variant, its selector aside. -/
def Variant.onNode : Variant → Node → Node
  | .selector _, node => node
  | .atRule head, node => .block head [node]

/-- A body of the settings that cannot be read. -/
structure BodyError where
  table : String
  key : String
  cause : ReadError
  deriving DecidableEq, Repr

namespace BodyError

def message (e : BodyError) : String :=
  "invalid declarations for `" ++ e.table ++ "." ++ e.key ++ "`: " ++ e.cause.message

/-- An error as a diagnostic, which points at no stylesheet. -/
def diagnostic (e : BodyError) : Diagnostic :=
  .ofError .invalidBody e.message .nowhere

end BodyError

/-- The rules of the settings. -/
structure RuleBook where
  /-- What stands between the variants of a candidate. -/
  separator : String
  /-- Whether the declarations of all utilities are important. -/
  important : Bool
  /-- What belongs to every build. -/
  always : List Fragment
  components : Table (List Node)
  utilities : Table (List Node)
  variants : Table Variant

namespace RuleBook

/-! ## Reading the settings -/

/-- The children of the first rule of a forest. -/
def firstRuleNodes : List Node → List Node
  | [] => []
  | .rule _ nodes _ _ :: _ => nodes
  | _ :: rest => firstRuleNodes rest

/-- A body between the braces of a rule. -/
def wrapBody (body : String) : String :=
  "& \x7b " ++ body ++ " \x7d"

/-- The nodes of a body. -/
def readBody (table key body : String) : Except BodyError (List Node) :=
  match readStylesheet Span.noFile (wrapBody body) with
  | .ok nodes => .ok (Node.clearSpansAll (firstRuleNodes nodes))
  | .error cause => .error ⟨table, key, cause⟩

/-- The nodes of all bodies of a table. -/
def readBodies (table : String) (bodies : Table String) :
    Except BodyError (List (String × List Node)) :=
  bodies.entries.mapM fun (key, body) => return (key, ← readBody table key body)

/-- The selector of the rule with the default declarations. -/
def defaultsSelector : String := "*, ::before, ::after"

/-- The rule with the default declarations, if there are any. -/
def defaultsFragments (defaults : Table String) : List Fragment :=
  if defaults.isEmpty then []
  else
    let nodes := defaults.entries.map fun (property, value) =>
      Node.declaration property value false none
    [{ node := .block defaultsSelector nodes, layer := .defaults }]

/-- The rules of the settings, if all bodies can be read. -/
def ofSettings (s : Settings) : Except BodyError RuleBook := do
  let base ← readBodies "base" s.base
  let components ← readBodies "components" s.components
  let utilities ← readBodies "utilities" s.utilities
  return {
    separator := s.options.separator
    important := s.options.important
    always := defaultsFragments s.defaults ++
      base.map fun (selector, nodes) => { node := .block selector nodes, layer := .base }
    components := ⟨components⟩
    utilities := ⟨utilities⟩
    variants := ⟨s.variants.entries.map fun (name, template) => (name, .ofTemplate template)⟩ }

/-! ## The rules of a candidate -/

/-- A base without the exclamation mark in front, and whether it had one. -/
def splitBang (base : String) : String × Bool :=
  match base.toList with
  | '!' :: rest => (String.ofList rest, true)
  | _ => (base, false)

/-- The children of the rule with a name, and its layer. -/
def lookup (book : RuleBook) (name : String) : Option (List Node × Layer) :=
  match book.utilities.get? name with
  | some nodes => some (nodes, .utilities)
  | none => (book.components.get? name).map (·, .components)

/-- The rule of a candidate with its variants. -/
def build (candidate : String) (variants : List Variant) (nodes : List Node) : Node :=
  let selector := variants.foldr Variant.onSelector
    ('.' :: (Candidate.escapeClassName candidate).toList)
  variants.foldr Variant.onNode (.block (String.ofList selector) nodes)

/-- The fragments of a candidate. -/
def resolve (book : RuleBook) (candidate : String) : List Fragment :=
  if candidate = Candidate.always then book.always
  else
    let (names, base) := Candidate.split book.separator candidate
    let (name, bang) := splitBang base
    match book.lookup name, names.mapM book.variants.get? with
    | some (nodes, layer), some variants =>
      let important := bang || (book.important && layer == .utilities)
      let nodes := if important then Node.markImportantAll nodes else nodes
      let node := build candidate variants nodes
      if variants.isEmpty then [{ node, layer }]
      else [{ node, layer := .variants, origin := some layer }]
    | _, _ => []

end RuleBook

end UtilityCss
