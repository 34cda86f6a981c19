import UtilityCss.Stylesheet.Node

/-!
# Layers of generated rules

Generated rules are grouped into five layers.  Rules made by variants are a layer of their own and
remember the layer of the rule they were made from.

* `Fragment` — a generated node with its layer.
* `Sheet` — generated fragments in order; `Sheet.bucket` picks those of a layer.
-/

namespace UtilityCss

/-- A group of generated rules. -/
inductive Layer where
  /-- Declarations for all elements, in front of `base`. -/
  | defaults
  | base
  | components
  | utilities
  | variants
  deriving DecidableEq, Repr, Inhabited

namespace Layer

/-- The layers in the order of their output. -/
def all : List Layer := [.defaults, .base, .components, .utilities, .variants]

def name : Layer → String
  | .defaults => "defaults"
  | .base => "base"
  | .components => "components"
  | .utilities => "utilities"
  | .variants => "variants"

/-- The layer that the parameters of a `@tailwind` rule declare; `screens` is an old name of
`variants`, and `defaults` cannot be declared. -/
def ofDirective? (params : String) : Option Layer :=
  if params = "base" then some .base
  else if params = "components" then some .components
  else if params = "utilities" then some .utilities
  else if params = "variants" ∨ params = "screens" then some .variants
  else none

/-- The layer that the parameters of a `@layer` rule add to. -/
def ofBlock? (params : String) : Option Layer :=
  if params = "base" then some .base
  else if params = "components" then some .components
  else if params = "utilities" then some .utilities
  else none

end Layer

/-- A generated node with its layer. -/
structure Fragment where
  /-- The node, without spans. -/
  node : Node
  layer : Layer
  /-- For rules made by variants, the layer of the rule they were made from. -/
  origin : Option Layer := none
  deriving Repr, Inhabited

/-- Generated fragments, in the order of their candidates. -/
structure Sheet where
  fragments : List Fragment
  deriving Repr, Inhabited

namespace Sheet

/-- The fragments of a layer, in order. -/
def bucket (s : Sheet) (layer : Layer) : List Fragment :=
  s.fragments.filter fun f => f.layer = layer

def size (s : Sheet) : Nat := s.fragments.length

end Sheet

end UtilityCss
