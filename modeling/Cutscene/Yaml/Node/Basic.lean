import Cutscene.Yaml.Token.Basic

/-!
# Nodes of a document

A YAML document is a tree of nodes. Anchors are numbered, and an alias has the number of an anchor.
-/

namespace Cutscene.Yaml

/-- What may be said of a node before it. -/
structure Properties where
  tag : Option String := none
  /-- The number of its anchor. -/
  anchor : Option Nat := none
deriving DecidableEq, Repr

/-- A node of a document. -/
inductive Node where
  | scalar (properties : Properties) (style : Style) (text : String)
  | sequence (properties : Properties) (items : List Node)
  | mapping (properties : Properties) (entries : List (Node × Node))
  | alias (anchor : Nat)
deriving Inhabited

namespace Node

/-- The node that is written as nothing. -/
def empty : Node := .scalar {} .plain ""

mutual

/-- The nodes with an anchor, each with its number, in the order in which they begin. -/
def anchored : Node → List (Nat × Node)
  | .scalar properties style text =>
    (properties.anchor.map (·, .scalar properties style text)).toList
  | .sequence properties items =>
    (properties.anchor.map (·, .sequence properties items)).toList ++ anchoredItems items
  | .mapping properties entries =>
    (properties.anchor.map (·, .mapping properties entries)).toList ++ anchoredEntries entries
  | .alias _ => []

/-- The nodes with an anchor in items. -/
def anchoredItems : List Node → List (Nat × Node)
  | [] => []
  | node :: rest => anchored node ++ anchoredItems rest

/-- The nodes with an anchor in entries. -/
def anchoredEntries : List (Node × Node) → List (Nat × Node)
  | [] => []
  | (key, value) :: rest => anchored key ++ anchored value ++ anchoredEntries rest

end

mutual

/-- How long a node is: one for a scalar or an alias, and two more than its parts for a
collection. -/
def size : Node → Nat
  | .scalar .. => 1
  | .alias _ => 1
  | .sequence _ items => sizeItems items + 2
  | .mapping _ entries => sizeEntries entries + 2

/-- How long items are. -/
def sizeItems : List Node → Nat
  | [] => 0
  | node :: rest => size node + sizeItems rest

/-- How long entries are. -/
def sizeEntries : List (Node × Node) → Nat
  | [] => 0
  | (key, value) :: rest => size key + size value + sizeEntries rest

end

/-- What is said of a node before it. -/
def properties : Node → Properties
  | .scalar p _ _ | .sequence p _ | .mapping p _ => p
  | .alias _ => {}

/-- The node without its tag. -/
def untagged : Node → Node
  | .scalar p style text => .scalar { p with tag := none } style text
  | .sequence p items => .sequence { p with tag := none } items
  | .mapping p entries => .mapping { p with tag := none } entries
  | .alias anchor => .alias anchor

end Node

end Cutscene.Yaml
