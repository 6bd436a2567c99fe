import Cutscene.Ending
import Cutscene.Settings
import Cutscene.ParameterSet
import Cutscene.Json.Basic

/-!
# Graphs

A graph is the template that instances are made from: nodes in a row, each with the endings of its
outputs.
-/

namespace Cutscene

/-- A node of a graph: its kind, what the kind needs to know, and an ending for each output. -/
structure Graph.Node where
  kind : String
  id : String := ""
  title : String := ""
  enabled : Bool := true
  endings : List Ending := [.next]
  params : Json := .null

/-- A template for instances. -/
structure Graph where
  id : String
  name : String
  nodes : List Graph.Node
  /-- The node that a plain trigger starts at. -/
  start : Nat := 0
  parameters : List Parameter := []
  settings : Settings := {}

end Cutscene
