import Cutscene.Behaviour.Waiting

/-!
# Branching

Nodes with several outputs: one is chosen by a condition or in turn, or all are taken.
-/

namespace Cutscene

/-- Takes the first of two outputs if a condition holds, else the second. -/
structure Check where
  condition : Condition

/-- Asks the condition. -/
def Check.choose (vars : Variables) (c : Check) : Choice Check :=
  let (holds, notices) := c.condition.judge vars
  { behaviour := c, vars, output := if holds then 0 else 1, notices }

/-- Takes its outputs in turn, one at each visit. -/
structure Cycle where
  /-- At least one. -/
  outputs : Nat
  /-- After the last output has been taken it is taken again. -/
  holdsLast : Bool
  visits : Nat := 0

namespace Cycle

/-- There has to be an output. -/
def validate (params : Json) : Except ParamError Unit :=
  if Params.nat? params "outputs" = some 0 then .error .noOutputs else .ok ()

/-- There are two outputs unless params give another number. -/
def prepare (params : Json) : Except ParamError Cycle :=
  match validate params with
  | .error error => .error error
  | .ok () =>
    .ok { outputs := max ((Params.nat? params "outputs").getD 2) 1
          holdsLast := Params.flag params "hold_last" false }

/-- The output whose turn it is. -/
def turn (c : Cycle) : Nat :=
  if c.holdsLast then min c.visits (c.outputs - 1) else c.visits % c.outputs

/-- Takes the next output. Outputs are numbered with 32 bits and a sign. -/
def choose (vars : Variables) (c : Cycle) : Choice Cycle :=
  { behaviour := { c with visits := c.visits + 1 }, vars,
    output := (c.turn : Int).bmod Int32.size }

end Cycle

/-- Takes all its outputs at once. -/
structure Parallel where
  outputs : Nat

/-- There are two outputs unless params give another number. -/
def Parallel.prepare (params : Json) : Except ParamError Parallel :=
  .ok ⟨(Params.nat? params "outputs").getD 2⟩

end Cutscene
