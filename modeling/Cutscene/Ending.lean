/-!
# Endings

What a branch does after a node has finished through one of its outputs.
-/

namespace Cutscene

/-- What a branch does next. -/
inductive Ending where
  /-- Go on to the node that follows. -/
  | next
  /-- The branch is over. -/
  | stop
  /-- Jump to a node of the same graph. -/
  | goto (target : Nat)
  /-- Hand over to another graph; the own graph starts again. -/
  | start (graph : String)
deriving DecidableEq, Repr, Inhabited

end Cutscene
