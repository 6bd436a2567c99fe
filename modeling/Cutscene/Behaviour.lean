import Cutscene.Clock
import Cutscene.Command
import Cutscene.Ending
import Cutscene.Event
import Cutscene.ParameterSet
import Cutscene.Registry
import Cutscene.Settings
import Cutscene.Variables

/-!
# Behaviours

What a node does is up to its behaviour. The scheduler knows a behaviour only through the class
`Behaviour`: a call sees its surroundings as a `Context` and answers with an `Outcome` or a
`Choice`.
-/

namespace Cutscene

/-- What a behaviour sees of its surroundings. -/
structure Context where
  playback : Nat
  graph : String
  /-- The node's place in its graph. -/
  index : Nat
  skipping : Bool
  /-- The node is in the middle of its execution. -/
  running : Bool
  clock : Clock
  /-- Some playback of a graph runs. A behaviour can ask no more of the registry. -/
  isGraphRunning : String → Bool
  /-- The commands that have been raised and not been taken up yet, oldest first. -/
  commands : List Command

/-- What a call to run or to skip did. -/
structure Outcome (β : Type) where
  behaviour : β
  vars : Variables
  commands : List Command := []
  notices : List Notice := []
  /-- How long to wait before the next call. -/
  wait : Float32 := 0
  /-- The node wants to be called again. -/
  running : Bool := false

/-- Which output a behaviour takes. -/
structure Choice (β : Type) where
  behaviour : β
  vars : Variables
  output : Int := 0
  notices : List Notice := []

/-- What the scheduler asks of a node. -/
class Behaviour (β : Type) where
  /-- The number of outputs. A branch stops at a node that has none. -/
  outputs : β → Nat
  /-- All outputs are taken at once. -/
  fansOut : β → Bool
  /-- Takes over the values of bound parameters. -/
  assign : ParameterSet → β → β
  /-- Starts the node, or goes on with it. -/
  run : Context → Variables → β → Outcome β
  /-- Reaches the final state at once. -/
  skip : Context → Variables → β → Outcome β
  /-- Says which output is taken. No commands are shown for that. -/
  choose : Context → Variables → β → Choice β

/-- The wait of a node that wants to be asked again at the next tick. -/
def nextTick : Float32 := -1

/-- A node of a playback: what the graph says of it, and its state. -/
structure Node (β : Type) where
  id : String
  kind : String
  title : String
  enabled : Bool
  endings : List Ending
  /-- A node without a behaviour is passed over. -/
  behaviour : Option β
  /-- The node is in the middle of its execution. -/
  running : Bool := false
  /-- The output taken last. -/
  memo : Option Nat := none

namespace Node

variable {β : Type} [Behaviour β]

/-- The node is not passed over. -/
def isRunnable (n : Node β) : Bool := n.enabled && n.behaviour.isSome

/-- The number of outputs. -/
def outputs (n : Node β) : Nat :=
  match n.behaviour with
  | some b => Behaviour.outputs b
  | none => 0

/-- All outputs are taken at once. -/
def fansOut (n : Node β) : Bool :=
  match n.behaviour with
  | some b => Behaviour.fansOut b
  | none => false

end Node

/-! ### The world around playbacks -/

/-- How a behaviour was called. -/
inductive Call.Form where
  /-- To run from the beginning. -/
  | run
  /-- To go on. -/
  | poll
  | skip
  /-- For the output to take. -/
  | choose
deriving DecidableEq, Repr

/-- A call of a behaviour, as the behaviour was when it was called. -/
structure Call (β : Type) where
  form : Call.Form
  playback : Nat
  graph : String
  index : Nat
  skipping : Bool
  behaviour : β

/-- Something that the journal keeps. -/
inductive Entry (β : Type) where
  | event (event : Event)
  | call (call : Call β)
  | notice (notice : Notice)

/-- What playbacks share. -/
structure World (β : Type) where
  clock : Clock := .start
  vars : Variables := {}
  registry : Registry := {}
  /-- Commands that have been raised and not been taken up yet, oldest first. -/
  commands : List Command := []
  config : Config := {}
  /-- A scene change is under way. -/
  sceneLoading : Bool := false
  /-- All that happened, latest first. -/
  journal : List (Entry β) := []

namespace World

variable {β : Type}

/-- Adds an entry to the journal. -/
def note (w : World β) (entry : Entry β) : World β := { w with journal := entry :: w.journal }

/-- Adds a notice to the journal. -/
def notice (w : World β) (notice : Notice) : World β := w.note (.notice notice)

/-- Adds notices to the journal, in order. -/
def noticeAll (w : World β) (notices : List Notice) : World β := notices.foldl notice w

/-- Raises a command. -/
def raise (w : World β) (command : Command) : World β :=
  { w with commands := w.commands ++ [command] }

/-- The world after a call to run or to skip. -/
def absorb (w : World β) (o : Outcome β) : World β :=
  { w with vars := o.vars, commands := w.commands ++ o.commands }.noticeAll o.notices

/-- The world after a choice. -/
def absorbChoice (w : World β) (c : Choice β) : World β :=
  { w with vars := c.vars }.noticeAll c.notices

end World

end Cutscene
