import UtilityCss.Diagnostic.Sink
import UtilityCss.Rule.Layer
import UtilityCss.Table

/-!
# The directives of a document

`@tailwind` rules declare layers, `@layer` blocks add to declared layers, and `@apply` names
candidates.  Two old spellings are understood: `@tailwind screens` for `@tailwind variants`, and
`@responsive` and `@variants` blocks, which get a warning each, once per run.

* `Registry` — the layers a document declares and its `@apply` sites.
* `modernize` — the document with the old spelling of a layer replaced.
* `review` — the verdict on a document, which is respelled and warned about in any case.
* `normalize` — the registry of a document whose blocks all belong to declared layers, or the first
  block, in document order, that does not.

A block may stand in front of the directive it needs, so blocks are checked after the whole document
was seen.
-/

namespace UtilityCss

/-- An `@apply` rule. -/
structure ApplySite where
  /-- The candidates it names, in order. -/
  candidates : List String
  /-- Whether it says `!important`. -/
  important : Bool
  span : Option Span
  deriving DecidableEq, Repr

/-- The parameters of an `@apply` rule. -/
def ApplySite.ofParams (params : String) (span : Option Span) : ApplySite :=
  let words := Text.words params
  { candidates := words.filter (· != "!important")
    important := words.contains "!important"
    span }

/-- What a document declares. -/
structure Registry where
  /-- The names that `@tailwind` rules declare, ascending. -/
  layers : List String := []
  /-- The `@apply` rules, in document order. -/
  applies : List ApplySite := []
  deriving DecidableEq, Repr

namespace Registry

/-- The layers that a document can add to. -/
def coreLayers : List String := ["base", "components", "utilities"]

def has (r : Registry) (layer : String) : Bool :=
  r.layers.contains layer

def isEmpty (r : Registry) : Bool := r.layers.isEmpty

def hasAllCore (r : Registry) : Bool :=
  coreLayers.all r.has

end Registry

/-! ## Errors -/

/-- A block whose layer is not declared. -/
inductive DirectiveError where
  /-- A `@layer` block without its `@tailwind` rule. -/
  | layerWithoutDirective (layer : String) (span : Span)
  /-- An old block without `@tailwind utilities`. -/
  | legacyWithoutUtilities (name : String) (span : Span)
  deriving DecidableEq, Repr

namespace DirectiveError

def message : DirectiveError → String
  | .layerWithoutDirective layer _ =>
    "`@layer " ++ layer ++ "` is used but no matching `@tailwind " ++ layer ++
      "` directive is present."
  | .legacyWithoutUtilities name _ =>
    "`@" ++ name ++ "` is used but `@tailwind utilities` is missing."

def diagnostic : DirectiveError → Diagnostic
  | .layerWithoutDirective layer s =>
    ((Diagnostic.ofError .layerWithoutDirective (message (.layerWithoutDirective layer s)) s).withLabel
      "layer used here").withHelp ("add `@tailwind " ++ layer ++ ";` to the stylesheet")
  | .legacyWithoutUtilities name s =>
    ((Diagnostic.ofError .legacyWithoutUtilities (message (.legacyWithoutUtilities name s)) s).withLabel
      "used here").withHelp "add `@tailwind utilities;` to the stylesheet"

end DirectiveError

namespace Directive

/-! ## Old spellings -/

/-- Whether a selector is an old spelling of `@tailwind variants`. -/
def isScreens (selector : String) : Bool :=
  Node.splitAtRule? selector.toList == some ("tailwind", "screens")

mutual

/-- A tree with the old spelling of the variants layer replaced. -/
def modernize : Node → Node
  | .rule selector nodes hasBlock span =>
    .rule (if isScreens selector then "@tailwind variants" else selector) (modernizeAll nodes)
      hasBlock span
  | .declaration property value important span => .declaration property value important span
  | .comment text span => .comment text span

def modernizeAll : List Node → List Node
  | [] => []
  | node :: rest => modernize node :: modernizeAll rest

end

/-! ## At-rules in document order -/

/-- An at-rule of a document. -/
structure AtRule where
  name : String
  params : String
  span : Option Span

/-- The at-rules of a forest, parents in front of their children. -/
def atRules (nodes : List Node) : List AtRule :=
  (Node.visitsAll 0 nodes).filterMap fun (_, node) =>
    (node.atRule?).map fun (name, params) => ⟨name, params, node.span⟩

def AtRule.isLegacy (rule : AtRule) : Bool :=
  rule.name == "responsive" || rule.name == "variants"

/-- The span of an at-rule for a diagnostic. -/
def AtRule.place (rule : AtRule) : Span := rule.span.getD .nowhere

/-- The name that a `@tailwind` rule declares. -/
def AtRule.declared? (rule : AtRule) : Option String :=
  if rule.name == "tailwind" then
    some (if rule.params == "screens" then "variants" else rule.params)
  else none

/-- The site of an `@apply` rule. -/
def AtRule.apply? (rule : AtRule) : Option ApplySite :=
  if rule.name == "apply" then some (.ofParams rule.params rule.span) else none

/-- The registry of the at-rules of a document. -/
def registryOf (rules : List AtRule) : Registry :=
  { layers := Names.sorted (rules.filterMap AtRule.declared?)
    applies := rules.filterMap AtRule.apply? }

/-! ## Warnings -/

/-- The warning about an old block.  A block without parameters can be replaced as it stands. -/
def deprecation (rule : AtRule) : Diagnostic :=
  let d := ((Diagnostic.ofWarning .deprecatedAtRule
    ("The `@" ++ rule.name ++ "` directive has been deprecated.") rule.place).withLabel
      "deprecated at-rule").withHelp "Use `@layer utilities` or `@layer components` instead."
  if rule.params.isEmpty && !rule.place.isNowhere then
    let head := Span.ofRange rule.place.file rule.place.start
      (rule.place.start + 1 + rule.name.utf8ByteSize)
    d.withFix ⟨"replace with `@layer utilities`", [⟨head, "@layer utilities"⟩]⟩
  else d

/-- Emits the warning about an old block, if it is one and its name was not warned about. -/
def warn (sink : Sink) (rule : AtRule) : Sink :=
  if rule.isLegacy then sink.emitOnce (rule.name ++ "-at-rule-deprecated") (deprecation rule)
  else sink

/-! ## Checking blocks -/

/-- The error of a block whose layer is not declared. -/
def blockError? (registry : Registry) (rule : AtRule) : Option DirectiveError :=
  if rule.name == "layer" then
    if Registry.coreLayers.contains rule.params && !registry.has rule.params then
      some (.layerWithoutDirective rule.params rule.place)
    else none
  else if rule.isLegacy && !registry.has "utilities" then
    some (.legacyWithoutUtilities rule.name rule.place)
  else none

/-- The first error among the blocks of a document; none if all layers are declared. -/
def firstError? (registry : Registry) (rules : List AtRule) : Option DirectiveError :=
  if registry.hasAllCore then none else rules.findSome? (blockError? registry)

/-- The verdict on a document: its registry, or the first error.  The document in modern spelling and
the warnings come with either. -/
def review (nodes : List Node) (sink : Sink) : Except DirectiveError Registry × List Node × Sink :=
  let rules := atRules nodes
  let registry := registryOf rules
  let verdict :=
    match firstError? registry rules with
    | some e => .error e
    | none => .ok registry
  (verdict, modernizeAll nodes, rules.foldl warn sink)

/-- The registry of a document and the document in modern spelling, or the first error.  Warnings
are emitted in both cases. -/
def normalize (nodes : List Node) (sink : Sink) :
    Except DirectiveError (Registry × List Node) × Sink :=
  let (verdict, document, sink) := review nodes sink
  (verdict.map (·, document), sink)

end Directive

end UtilityCss
