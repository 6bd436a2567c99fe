/-!
# Commands

A node does not touch other graphs itself. It raises commands, which wait until the engine applies
them.
-/

namespace Cutscene

/-- A wish that concerns another graph. -/
inductive Command where
  /-- Start it at a node, for the skip queue or not; `skip` runs it to its end at once. -/
  | start (graph : String) (start : Nat) (queue skip : Bool)
  | kill (graph : String)
  | pause (graph : String)
  | resume (graph : String) (rerun : Bool)
  | skip (graph : String)
deriving DecidableEq, Repr

end Cutscene
