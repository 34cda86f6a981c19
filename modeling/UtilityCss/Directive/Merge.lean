import UtilityCss.Diagnostic.Sink
import UtilityCss.Rule.Layer

/-!
# Putting generated layers into a document

`merge` replaces the `@tailwind` rules of a document by the generated rules of their layers.

* **Blocks** — `@layer` blocks of the document are taken apart first: the contents of one at top
  level follow the generated rules of its layer, one inside another rule gives way to its contents.
* **Sites** — of several directives for a layer the last one in document order is chosen; the others
  stay as they are.  A `Site` is the path of child indices to a directive and its span.
* **Variants** — rules made by variants go to the directive for variants, or to the end of the
  document if there is none.  Those made from a layer that is not declared are left out.
* **Spans** — generated nodes take the span of the directive they are emitted for.

The replacements are collected in a plan from paths to nodes, which `splice` carries out in a single
pass.
-/

namespace UtilityCss.Directive

/-! ## Sites -/

/-- Where a directive stands. -/
structure Site where
  path : List Nat
  /-- Its span. -/
  span : Option Span
  deriving DecidableEq, Repr

/-- The layer that a rule with this selector declares. -/
def declaredLayer? (selector : String) : Option Layer :=
  match Node.splitAtRule? selector.toList with
  | some (name, params) => if name = "tailwind" then Layer.ofDirective? params else none
  | none => none

mutual

/-- The directives of the tree at a path, in document order. -/
def sitesAt (path : List Nat) : Node → List (Layer × Site)
  | .rule selector nodes _ span =>
    ((declaredLayer? selector).map (·, ⟨path, span⟩)).toList ++ sitesBelow path 0 nodes
  | .declaration .. => []
  | .comment .. => []

/-- The directives of the trees below a path, the first of which has the given index. -/
def sitesBelow (path : List Nat) (index : Nat) : List Node → List (Layer × Site)
  | [] => []
  | node :: rest => sitesAt (path ++ [index]) node ++ sitesBelow path (index + 1) rest

end

/-- The directives of a document. -/
structure Sites where
  /-- All directives in document order. -/
  found : List (Layer × Site)

namespace Sites

def find (nodes : List Node) : Sites := ⟨sitesBelow [] 0 nodes⟩

/-- The directive chosen for a layer, which is the last. -/
def get? (s : Sites) (layer : Layer) : Option Site :=
  s.found.reverse.lookup layer

def has (s : Sites) (layer : Layer) : Bool := (s.get? layer).isSome

def isEmpty (s : Sites) : Bool := s.found.isEmpty

def span? (s : Sites) (layer : Layer) : Option Span :=
  (s.get? layer).bind Site.span

end Sites

/-! ## Blocks of the document -/

/-- The layer that the block with this selector adds to. -/
def blockLayer? (selector : String) : Option Layer :=
  match Node.splitAtRule? selector.toList with
  | some (name, params) => if name = "layer" then Layer.ofBlock? params else none
  | none => none

mutual

/-- A tree with the blocks inside it replaced by their contents; a block gives way to its own. -/
def unwrap : Node → List Node
  | .rule selector nodes hasBlock span =>
    if (blockLayer? selector).isSome then unwrapAll nodes
    else [.rule selector (unwrapAll nodes) hasBlock span]
  | .declaration property value important span => [.declaration property value important span]
  | .comment text span => [.comment text span]

def unwrapAll : List Node → List Node
  | [] => []
  | node :: rest => unwrap node ++ unwrapAll rest

end

/-- The layer of a block at top level. -/
def topBlock? : Node → Option Layer
  | .rule selector _ _ _ => blockLayer? selector
  | _ => none

/-- The document without its blocks at top level, the others taken apart. -/
def withoutBlocks (nodes : List Node) : List Node :=
  (nodes.filter fun node => (topBlock? node).isNone).flatMap unwrap

/-- The contents of the blocks of a layer at top level, in document order. -/
def authored (nodes : List Node) (layer : Layer) : List Node :=
  (nodes.filter fun node => topBlock? node = some layer).flatMap unwrap

/-! ## The plan -/

/-- What is to be put in place of the nodes at some paths. -/
abbrev Plan := List (List Nat × List Node)

/-- Generated nodes for a directive with a span. -/
def emit (span : Option Span) (fragments : List Fragment) : List Node :=
  fragments.map fun f => f.node.backfill? span

/-- The replacement for the directive of a layer that a document can add to. -/
def layerPlan (nodes : List Node) (sheet : Sheet) (sites : Sites) (layer : Layer) : Plan :=
  match sites.get? layer with
  | none => []
  | some site =>
    let lead := if layer = .base then emit site.span (sheet.bucket .defaults) else []
    [(site.path, lead ++ emit site.span (sheet.bucket layer) ++ authored nodes layer)]

/-- Whether a rule made by a variant belongs into a document with these directives. -/
def qualifies (sites : Sites) (f : Fragment) : Bool :=
  match f.origin with
  | some .components => sites.has .components
  | some .utilities => sites.has .utilities
  | _ => true

/-- The rules made by variants that belong into a document. -/
def variantFragments (sheet : Sheet) (sites : Sites) : List Fragment :=
  (sheet.bucket .variants).filter (qualifies sites)

/-- The replacement for the directive for variants. -/
def variantPlan (sheet : Sheet) (sites : Sites) : Plan :=
  match sites.get? .variants with
  | none => []
  | some site => [(site.path, emit site.span (variantFragments sheet sites))]

/-- What follows the document: rules made by variants that have no directive of their own. -/
def trailing (sheet : Sheet) (sites : Sites) : List Node :=
  if sites.has .variants then []
  else (variantFragments sheet sites).map fun f => f.node.backfill? (f.origin.bind sites.span?)

/-- The replacements for all directives chosen. -/
def plan (nodes : List Node) (sheet : Sheet) (sites : Sites) : Plan :=
  layerPlan nodes sheet sites .base ++ layerPlan nodes sheet sites .components ++
    layerPlan nodes sheet sites .utilities ++ variantPlan sheet sites

mutual

/-- What becomes of the tree at a path. -/
def splice (p : Plan) (path : List Nat) : Node → List Node
  | .rule selector nodes hasBlock span =>
    match p.lookup path with
    | some new => new
    | none => [.rule selector (spliceBelow p path 0 nodes) hasBlock span]
  | .declaration property value important span =>
    (p.lookup path).getD [.declaration property value important span]
  | .comment text span => (p.lookup path).getD [.comment text span]

/-- What becomes of the trees below a path, the first of which has the given index. -/
def spliceBelow (p : Plan) (path : List Nat) (index : Nat) : List Node → List Node
  | [] => []
  | node :: rest => splice p (path ++ [index]) node ++ spliceBelow p path (index + 1) rest

end

/-! ## The merged document -/

/-- A document with its directives replaced by generated rules; unchanged if it has none. -/
def merge (nodes : List Node) (sheet : Sheet) : List Node :=
  if (Sites.find nodes).isEmpty then nodes
  else
    let document := withoutBlocks nodes
    let sites := Sites.find document
    spliceBelow (plan nodes sheet sites) [] 0 document ++ trailing sheet sites

/-- The warning that the utilities layer came out empty. -/
def noUtilities (span : Span) : Diagnostic :=
  let d := (Diagnostic.ofWarning .noUtilities
    "No utility classes were detected in your source files." span).withHelp
      "check that `[content]` in tack.toml lists your template files"
  if span.isNowhere then d else d.withLabel "this layer is empty"

/-- Warns, once per run, if a document declares the utilities layer and gets nothing for it. -/
def warnIfEmpty (nodes : List Node) (sheet : Sheet) (sink : Sink) : Sink :=
  if (Sites.find nodes).isEmpty then sink
  else
    let sites := Sites.find (withoutBlocks nodes)
    match sites.get? .utilities with
    | none => sink
    | some site =>
      if (sheet.bucket .utilities).isEmpty &&
          !(variantFragments sheet sites).any (fun f => f.origin == some .utilities) then
        sink.emitOnce "content-problems" (noUtilities (site.span.getD .nowhere))
      else sink

end UtilityCss.Directive
