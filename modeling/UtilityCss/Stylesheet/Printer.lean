import UtilityCss.Stylesheet.Node

/-!
# Printing a stylesheet

A forest is printed in one of two styles.

* **Pretty** — one node to a line, children indented by two spaces.
* **Minified** — no optional blanks, and no semicolon in front of a closing brace.

In both, a rule without a block is a statement ended by a semicolon, and its children, if it has
any, are not printed.

A node is printed in front of the text that follows it, so that each character is written once
however deep the node lies.
-/

namespace UtilityCss

/-- How a forest is laid out as text. -/
inductive Style where
  | pretty
  | minified
  deriving DecidableEq, Repr

namespace Node

/-- The indentation of nodes at a depth. -/
def indentation (depth : Nat) : List Char :=
  List.replicate (2 * depth) ' '

mutual

/-- A tree at a depth, one node to a line, in front of `rest`. -/
def pretty (depth : Nat) : Node → (rest : List Char) → List Char
  | .comment text _, rest =>
    indentation depth ++ ("/*".toList ++ (text.toList ++ ("*/\n".toList ++ rest)))
  | .declaration property value important _, rest =>
    indentation depth ++ (property.toList ++ (": ".toList ++ (value.toList ++
      ((if important then " !important".toList else []) ++ (";\n".toList ++ rest)))))
  | .rule selector nodes hasBlock _, rest =>
    indentation depth ++ (selector.toList ++
      if hasBlock then
        " \x7b\n".toList ++ prettyAll (depth + 1) nodes
          (indentation depth ++ ("\x7d\n".toList ++ rest))
      else ";\n".toList ++ rest)

/-- A forest at a depth, one node to a line, in front of `rest`. -/
def prettyAll (depth : Nat) : List Node → (rest : List Char) → List Char
  | [], rest => rest
  | node :: nodes, rest => pretty depth node (prettyAll depth nodes rest)

end

/-- The semicolon that ends a node, unless a closing brace follows. -/
def semicolonUnless (closing : Bool) (rest : List Char) : List Char :=
  if closing then rest else ';' :: rest

mutual

/-- A tree without optional blanks, in front of `rest`; `closing` tells whether that begins with
the brace that closes the block of the tree. -/
def minified (closing : Bool) : Node → (rest : List Char) → List Char
  | .comment text _, rest => "/*".toList ++ (text.toList ++ ("*/".toList ++ rest))
  | .declaration property value important _, rest =>
    property.toList ++ (":".toList ++ (value.toList ++
      ((if important then "!important".toList else []) ++ semicolonUnless closing rest)))
  | .rule selector nodes hasBlock _, rest =>
    selector.toList ++
      if hasBlock then '{' :: minifiedAll true nodes ('}' :: rest)
      else semicolonUnless closing rest

/-- A forest without optional blanks, in front of `rest`; `inBlock` tells whether it is the
contents of a block. -/
def minifiedAll (inBlock : Bool) : List Node → (rest : List Char) → List Char
  | [], rest => rest
  | node :: nodes, rest =>
    minified (inBlock && nodes.isEmpty) node (minifiedAll inBlock nodes rest)

end

end Node

/-- The text of a forest in a style. -/
def printStylesheet (style : Style) (nodes : List Node) : String :=
  match style with
  | .pretty => String.ofList (Node.prettyAll 0 nodes [])
  | .minified => String.ofList (Node.minifiedAll false nodes [])

end UtilityCss
