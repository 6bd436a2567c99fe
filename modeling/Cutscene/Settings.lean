/-!
# Settings

How a graph runs, and the tuning shared by all graphs of an engine.
-/

namespace Cutscene

/-- How a graph stands to gameplay. -/
inductive Mode where
  /-- Blocks gameplay while it runs. Only such a graph can be skipped. -/
  | blocking
  | background
deriving DecidableEq, Repr, Inhabited

/-- How a graph runs. -/
structure Settings where
  mode : Mode := .blocking
  skippable : Bool := true
  /-- Every trigger makes an instance of its own. -/
  multiInstance : Bool := false
  survivesSceneChange : Bool := false
  /-- Waits follow scaled time while pause menus are open. -/
  unfreezeMenus : Option Bool := none
  /-- Seconds before the first node, when that is node 0. -/
  startDelay : Float32 := 0
deriving DecidableEq, Inhabited

/-- Only a graph that blocks gameplay can be skipped, and only if it is meant to be. -/
def Settings.isSkippable (s : Settings) : Bool := s.mode = .blocking && s.skippable

/-- The tuning of an engine. -/
structure Config where
  /-- A skip may visit this many nodes for each node of the graph. -/
  hopFactor : Nat := 3
  /-- Ticks in a second. -/
  tickRate : Nat := 60
  /-- Commands applied in one flush before the rest are dropped. -/
  commandBudget : Nat := 1024
  /-- What graphs do that leave `Settings.unfreezeMenus` open. -/
  unfreezeMenus : Bool := false
deriving DecidableEq, Repr, Inhabited

end Cutscene
