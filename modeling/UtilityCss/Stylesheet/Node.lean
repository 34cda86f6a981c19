import UtilityCss.Source.Span
import UtilityCss.Text.Blank

/-!
# Stylesheet trees

A stylesheet is a list of nodes: rules with children, declarations and comments.  At-rules are
rules whose selector starts with `@`; one that ends in `;`, such as `@tailwind base;`, has no
block.

* **The tree** — `Node`, with `Node.span` for the place a node was read from.
* **At-rules** — `atRule?` splits a selector such as `@media (width > 1px)` into its name and its
  parameters.
* **Spans** — `backfill` gives a span to every node without one, `clearSpans` forgets them all.
* **Views** — `visits` lists a forest in pre-order with depths, `markImportant` marks every
  declaration.

Every function on nodes comes with a twin on lists of nodes; the pair recurses over the tree.
-/

namespace UtilityCss

/-- A node of a stylesheet. -/
inductive Node where
  /-- A selector, or the head of an at-rule, with its children.  `hasBlock` is false for a
  statement that ends in `;`. -/
  | rule (selector : String) (nodes : List Node) (hasBlock : Bool) (span : Option Span)
  /-- A property with its value; the value does not include the `!important` mark. -/
  | declaration (property value : String) (important : Bool) (span : Option Span)
  /-- A comment, with the text between its delimiters. -/
  | comment (text : String) (span : Option Span)
  deriving Repr, Inhabited

namespace Node

/-- A block rule that was not read from a source. -/
def block (selector : String) (nodes : List Node) : Node :=
  .rule selector nodes true none

/-- Where the node was read from. -/
def span : Node → Option Span
  | .rule _ _ _ s => s
  | .declaration _ _ _ s => s
  | .comment _ s => s

/-! ## At-rules -/

/-- Whether a character ends the name of an at-rule. -/
def endsAtRuleName (c : Char) : Bool :=
  Text.isBlank c || c == '('

/-- The name and the trimmed parameters of an at-rule's head. -/
def splitAtRule? : List Char → Option (String × String)
  | '@' :: rest =>
    let name := rest.takeWhile fun c => !endsAtRuleName c
    let params := rest.dropWhile fun c => !endsAtRuleName c
    some (String.ofList name, String.ofList (Text.trim params))
  | _ => none

/-- The name and the parameters of a node that is an at-rule. -/
def atRule? : Node → Option (String × String)
  | .rule selector _ _ _ => splitAtRule? selector.toList
  | _ => none

def isAtRuleSelector (selector : String) : Bool :=
  selector.toList.head? == some '@'

/-! ## Spans -/

mutual

/-- Gives `s` to every node of the tree that has no span. -/
def backfill (s : Span) : Node → Node
  | .rule selector nodes hasBlock span =>
    .rule selector (backfillAll s nodes) hasBlock (span.or (some s))
  | .declaration property value important span =>
    .declaration property value important (span.or (some s))
  | .comment text span => .comment text (span.or (some s))

def backfillAll (s : Span) : List Node → List Node
  | [] => []
  | node :: rest => backfill s node :: backfillAll s rest

end

/-- Applies `backfill` when there is a span to give. -/
def backfill? (s : Option Span) (node : Node) : Node :=
  match s with
  | some s => node.backfill s
  | none => node

mutual

/-- Forgets where every node of the tree was read from. -/
def clearSpans : Node → Node
  | .rule selector nodes hasBlock _ => .rule selector (clearSpansAll nodes) hasBlock none
  | .declaration property value important _ => .declaration property value important none
  | .comment text _ => .comment text none

def clearSpansAll : List Node → List Node
  | [] => []
  | node :: rest => clearSpans node :: clearSpansAll rest

end

/-! ## Views -/

mutual

/-- Marks every declaration of the tree `!important`. -/
def markImportant : Node → Node
  | .rule selector nodes hasBlock span => .rule selector (markImportantAll nodes) hasBlock span
  | .declaration property value _ span => .declaration property value true span
  | .comment text span => .comment text span

def markImportantAll : List Node → List Node
  | [] => []
  | node :: rest => markImportant node :: markImportantAll rest

end

mutual

/-- The nodes of a tree at `depth`, parents before their children. -/
def visits (depth : Nat) : Node → List (Nat × Node)
  | .rule selector nodes hasBlock span =>
    (depth, .rule selector nodes hasBlock span) :: visitsAll (depth + 1) nodes
  | .declaration property value important span =>
    [(depth, .declaration property value important span)]
  | .comment text span => [(depth, .comment text span)]

/-- The nodes of a forest whose roots are at `depth`, parents before their children. -/
def visitsAll (depth : Nat) : List Node → List (Nat × Node)
  | [] => []
  | node :: rest => visits depth node ++ visitsAll depth rest

end

end Node

end UtilityCss
