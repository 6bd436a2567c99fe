import Cutscene.Behaviour.Branching
import Cutscene.Behaviour.Graphs
import Cutscene.Behaviour.Messages
import Cutscene.Behaviour.SetVariable
import Cutscene.Behaviour.Waiting

/-!
# The built-in kinds of nodes

`Builtin` joins the behaviours of all ten kinds, and `Builtin.kinds` lists the kinds themselves.
-/

namespace Cutscene

/-- A behaviour of a built-in kind. -/
inductive Builtin where
  | comment (b : Comment)
  | message (b : Message)
  | wait (b : Wait)
  | waitUntil (b : WaitUntil)
  | check (b : Check)
  | cycle (b : Cycle)
  | parallel (b : Parallel)
  | runGraph (b : RunGraph)
  | controlGraph (b : ControlGraph)
  | setVariable (b : SetVariable)

/-- The outcome with another behaviour. -/
def Outcome.map {α β : Type} (f : α → β) (o : Outcome α) : Outcome β :=
  { o with behaviour := f o.behaviour }

/-- The choice with another behaviour. -/
def Choice.map {α β : Type} (f : α → β) (c : Choice α) : Choice β :=
  { c with behaviour := f c.behaviour }

namespace Builtin

/-- The number of outputs. -/
def outputs : Builtin → Nat
  | .check _ => 2
  | .cycle b => b.outputs
  | .parallel b => b.outputs
  | _ => 1

/-- All outputs are taken at once. -/
def fansOut : Builtin → Bool
  | .parallel _ => true
  | _ => false

/-- Takes over the values of bound parameters. -/
def assign (parameters : ParameterSet) : Builtin → Builtin
  | .message b => .message (b.assign parameters)
  | .wait b => .wait (b.assign parameters)
  | .setVariable b => .setVariable (b.assign parameters)
  | b => b

/-- Starts the node, or goes on with it. -/
def run (ctx : Context) (vs : Variables) : Builtin → Outcome Builtin
  | .comment b => (b.run vs).map .comment
  | .message b => (b.run vs).map .message
  | .wait b => (b.run ctx.running vs).map .wait
  | .waitUntil b => (b.run vs).map .waitUntil
  | .runGraph b => (b.run ctx vs).map .runGraph
  | .controlGraph b => (b.run vs).map .controlGraph
  | .setVariable b => (b.run vs).map .setVariable
  | b => { behaviour := b, vars := vs }

/-- Reaches the final state at once. Waits are left out; all others do what they do anyway. -/
def skip (ctx : Context) (vs : Variables) : Builtin → Outcome Builtin
  | .wait b => { behaviour := .wait b, vars := vs }
  | .waitUntil b => { behaviour := .waitUntil b, vars := vs }
  | .runGraph b => (b.skip vs).map .runGraph
  | b => { b.run ctx vs with running := false }

/-- Says which output is taken. -/
def choose (vs : Variables) : Builtin → Choice Builtin
  | .check b => (b.choose vs).map .check
  | .cycle b => (b.choose vs).map .cycle
  | b => { behaviour := b, vars := vs }

instance : Behaviour Builtin where
  outputs := outputs
  fansOut := fansOut
  assign := assign
  run := run
  skip := skip
  choose _ := choose

/-- A kind whose params are judged by making a behaviour of them. -/
def strict (name : String) (prepare : Json → Except ParamError Builtin) : NodeKind Builtin where
  name := name
  validate params := (prepare params).map fun _ => ()
  prepare := prepare

/-- The built-in kinds. -/
def kinds : List (NodeKind Builtin) :=
  [{ name := "comment"
     validate := fun _ => .ok ()
     prepare := fun params => (Comment.prepare params).map .comment },
   { name := "log"
     validate := Message.validate
     prepare := fun params => (Message.prepare params).map .message },
   { name := "wait"
     validate := Wait.validate
     prepare := fun params => (Wait.prepare params).map .wait },
   strict "check" fun params => (Condition.prepare params).map (.check ⟨·⟩),
   strict "wait_until" fun params => (Condition.prepare params).map (.waitUntil ⟨·⟩),
   { name := "cycle"
     validate := Cycle.validate
     prepare := fun params => (Cycle.prepare params).map .cycle },
   { name := "parallel"
     validate := fun _ => .ok ()
     prepare := fun params => (Parallel.prepare params).map .parallel },
   strict "run_graph" fun params => (RunGraph.prepare params).map .runGraph,
   strict "control_graph" fun params => (ControlGraph.prepare params).map .controlGraph,
   strict "set_variable" fun params => (SetVariable.prepare params).map .setVariable]

end Builtin

end Cutscene
