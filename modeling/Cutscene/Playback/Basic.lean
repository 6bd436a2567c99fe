import Cutscene.Behaviour

/-!
# Playbacks

A playback is one running instance of a graph. Its branches are either being worked off, or wait in
`Playback.pending` until `Wake.isDue`.
-/

namespace Cutscene

/-- Where a playback stands. -/
inductive Phase where
  /-- Not started, or halted. -/
  | idle
  | running
  | paused
  | finished
deriving DecidableEq, Repr, Inhabited

/-- The name of a phase. -/
def Phase.name : Phase → String
  | .idle => "Idle"
  | .running => "Running"
  | .paused => "Paused"
  | .finished => "Finished"

/-- What happens when a branch is taken up. -/
inductive Step where
  /-- The node runs from the beginning. -/
  | visit
  /-- The node goes on. -/
  | poll
  /-- The node is done, its ending is taken. -/
  | resolve
deriving DecidableEq, Repr

/-- When a branch is taken up. -/
inductive Wake where
  | now
  /-- At the next tick; `hold` keeps it waiting while scaled time stands still. -/
  | nextTick (hold : Bool)
  /-- As soon as the clock has reached a moment of real or scaled time. -/
  | moment (deadline : Float) (realtime : Bool)
deriving DecidableEq

/-- The time has come. -/
def Wake.isDue (clock : Clock) : Wake → Bool
  | .now => true
  | .nextTick hold => !hold || !clock.isFrozen
  | .moment deadline realtime => deadline ≤ clock.now realtime

/-- A place in a graph where a playback goes on. -/
structure Branch where
  index : Nat
  step : Step
  /-- The node whose ending led here. -/
  origin : Option Nat := none
  wake : Wake := .now
deriving DecidableEq

/-- One running instance of a graph. -/
structure Playback (β : Type) where
  id : Nat
  graph : String
  nodes : List (Node β)
  parameters : ParameterSet
  settings : Settings
  /-- The node that the graph starts at by itself. -/
  defaultStart : Nat := 0
  /-- The node that this run started at. -/
  start : Nat := 0
  /-- A conversation that follows the end. -/
  conversation : Option String := none
  phase : Phase := .idle
  /-- Branches that wait. -/
  pending : List Branch := []
  /-- The nodes at which the paused run goes on. -/
  resumePoints : List Nat := []
  pauseRequested : Bool := false
  skipping : Bool := false
  /-- Nodes visited by the present skip. -/
  hops : Nat := 0
  /-- The edition of the graph it was made from, if an engine made it. -/
  edition : Option Nat := none

namespace Playback

variable {β : Type}

/-- It runs or is paused. -/
def isActive (p : Playback β) : Bool := p.phase = .running || p.phase = .paused

/-- It is running. -/
def isRunning (p : Playback β) : Bool := p.phase = .running

/-- Only some graphs can be skipped. -/
def isSkippable (p : Playback β) : Bool := p.settings.isSkippable

/-- Changes a node. -/
def modifyNode (p : Playback β) (index : Nat) (f : Node β → Node β) : Playback β :=
  { p with nodes := p.nodes.modify index f }

/-- Tells the observers what happened. -/
def emit (p : Playback β) (kind : Event.Kind) (w : World β) : World β :=
  w.note (.event ⟨p.id, p.graph, kind⟩)

/-- Gives up all branches; no node is running any more. -/
def clearBranches (p : Playback β) : Playback β :=
  { p with pending := [], skipping := false,
           nodes := p.nodes.map fun n => { n with running := false } }

/-- Forgets which outputs were taken, and the hops of a skip. -/
def forgetChoices (p : Playback β) : Playback β :=
  { p with hops := 0, nodes := p.nodes.map fun n => { n with memo := none } }

/-- Stops without telling anyone. -/
def halt (p : Playback β) : Playback β :=
  let p := { p.clearBranches with pauseRequested := false }
  if p.phase = .running then { p with phase := .idle } else p

/-- Ends the run, if there is one, by force. -/
def kill (p : Playback β) (w : World β) : Playback β × World β :=
  let w := { w with registry := w.registry.drop p.id }
  let w := if p.isActive then p.emit (.ended true) w else w
  ({ p.clearBranches with resumePoints := [], pauseRequested := false, phase := .finished }, w)

/-! ### Waiting -/

/-- Waits follow scaled time even while pause menus are open. -/
def unfreezesMenus (p : Playback β) (w : World β) : Bool :=
  p.settings.unfreezeMenus.getD w.config.unfreezeMenus

/-- Waits follow real time at present. -/
def inRealtime (p : Playback β) (w : World β) : Bool :=
  p.settings.mode = .blocking && !p.unfreezesMenus w && w.clock.menus

/-- The moment that lies a number of seconds ahead. -/
def after (p : Playback β) (seconds : Float32) (w : World β) : Wake :=
  let realtime := p.inRealtime w
  .moment (w.clock.now realtime + Number.widen seconds) realtime

end Playback

end Cutscene
