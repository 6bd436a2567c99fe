import Cutscene.Behaviour
import Cutscene.Behaviour.Params
import Cutscene.Condition.Eval

/-!
# Waiting

Nodes that hold a branch, for a number of seconds or until a condition holds.
-/

namespace Cutscene

/-- Holds a branch for a number of seconds. -/
structure Wait where
  seconds : Float32
  /-- A parameter that holds the seconds instead. -/
  binding : Option Int32 := none

namespace Wait

/-- There have to be seconds that are not negative, or a parameter for them. -/
def validate (params : Json) : Except ParamError Unit :=
  match Params.single? params "seconds" with
  | some seconds => if seconds < 0 then .error .negativeSeconds else .ok ()
  | none =>
    if (Params.binding? params "seconds").isNone then .error (.missing "seconds") else .ok ()

/-- Any params will do. -/
def prepare (params : Json) : Except ParamError Wait :=
  .ok ⟨(Params.single? params "seconds").getD 0, Params.binding? params "seconds"⟩

/-- Takes over the seconds. -/
def assign (parameters : ParameterSet) (w : Wait) : Wait :=
  { w with seconds := parameters.assign (·.float?) w.binding w.seconds }

/-- Waits once, unless there is nothing to wait for. -/
def run (running : Bool) (vars : Variables) (w : Wait) : Outcome Wait :=
  if !running && 0 < w.seconds then
    { behaviour := w, vars, wait := w.seconds, running := true }
  else { behaviour := w, vars }

end Wait

namespace Condition

/-- Reads the condition that a node needs. -/
def prepare (params : Json) : Except ParamError Condition :=
  match Params.required params "condition" with
  | .error error => .error error
  | .ok text =>
    match read? text with
    | some c => .ok c
    | none => .error .condition

/-- Whether the condition holds. One that fails to say does not hold, and leaves a notice. -/
def judge (c : Condition) (vars : Variables) : Bool × List Notice :=
  match c.holds? vars with
  | some b => (b, [])
  | none => (false, [.conditionFailed])

end Condition

/-- Asks at every tick whether a condition holds. -/
structure WaitUntil where
  condition : Condition

/-- Waits while the condition does not hold. -/
def WaitUntil.run (vars : Variables) (w : WaitUntil) : Outcome WaitUntil :=
  let (holds, notices) := w.condition.judge vars
  if holds then { behaviour := w, vars, notices }
  else { behaviour := w, vars, notices, wait := nextTick, running := true }

end Cutscene
