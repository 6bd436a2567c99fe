import Cutscene.Behaviour
import Cutscene.Behaviour.Params

/-!
# Acting on other graphs

Nodes that start another graph, or kill, pause, resume or skip it. They raise commands.
-/

namespace Cutscene

/-- Starts another graph. -/
structure RunGraph where
  graph : String
  start : Nat
  /-- Hold the branch while the graph runs. -/
  waits : Bool

namespace RunGraph

/-- There has to be a graph. -/
def prepare (params : Json) : Except ParamError RunGraph :=
  match Params.required params "graph" with
  | .error error => .error error
  | .ok graph =>
    .ok { graph, start := (Params.nat? params "start_index").getD 0
          waits := Params.flag params "wait" false }

/-- Starts the graph, and then may wait for it. -/
def run (ctx : Context) (vars : Variables) (r : RunGraph) : Outcome RunGraph :=
  if ctx.running then
    if ctx.isGraphRunning r.graph then
      { behaviour := r, vars, wait := nextTick, running := true }
    else { behaviour := r, vars }
  else
    let commands := [Command.start r.graph r.start true false]
    if r.waits then { behaviour := r, vars, commands, wait := nextTick, running := true }
    else { behaviour := r, vars, commands }

/-- Has the graph run to its end at once. -/
def skip (vars : Variables) (r : RunGraph) : Outcome RunGraph :=
  { behaviour := r, vars, commands := [.start r.graph r.start true true] }

end RunGraph

/-- What to do with another graph. -/
inductive GraphOrder where
  | kill
  | pause
  | resume (rerun : Bool)
  | skip

/-- Gives another graph an order. -/
structure ControlGraph where
  graph : String
  order : GraphOrder

namespace ControlGraph

/-- There have to be a graph and an order for it. -/
def prepare (params : Json) : Except ParamError ControlGraph :=
  match Params.required params "graph" with
  | .error error => .error error
  | .ok graph =>
    match Params.required params "command" with
    | .error error => .error error
    | .ok "kill" => .ok ⟨graph, .kill⟩
    | .ok "pause" => .ok ⟨graph, .pause⟩
    | .ok "resume" => .ok ⟨graph, .resume (Params.flag params "rerun" true)⟩
    | .ok "skip" => .ok ⟨graph, .skip⟩
    | .ok other => .error (.unknownCommand other)

/-- The command for an order. -/
def command (c : ControlGraph) : Command :=
  match c.order with
  | .kill => .kill c.graph
  | .pause => .pause c.graph
  | .resume rerun => .resume c.graph rerun
  | .skip => .skip c.graph

/-- Raises the command. -/
def run (vars : Variables) (c : ControlGraph) : Outcome ControlGraph :=
  { behaviour := c, vars, commands := [c.command] }

end ControlGraph

end Cutscene
