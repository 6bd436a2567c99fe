import Cutscene.Behaviour
import Cutscene.Behaviour.Params

/-!
# Setting variables

A node that writes a variable, or adds to it.
-/

namespace Cutscene

/-- Writes a variable, or adds to it. -/
structure SetVariable where
  scope : Variable.Scope
  target : Int32
  /-- A parameter that names the variable instead. -/
  targetBinding : Option Int32
  /-- Add the value instead of writing it. -/
  adds : Bool
  value : Variable.Value
  /-- A parameter that holds the value instead. -/
  valueBinding : Option Int32

namespace SetVariable

/-- Three numbers, of which other things count as zero, are a vector. -/
def coordinate (j : Json) : Float32 := (Params.singleOf? j).getD 0

/-- The value that params give. -/
def readValue : Json → Except ParamError Variable.Value
  | .bool b => .ok (.boolean b)
  | .int n =>
    if Number.FitsInt64 n then
      match Number.int32? n with
      | some n => .ok (.integer n)
      | none => .error (.integerOutOfRange n)
    else .ok (.float (Number.narrow (Number.doubleOfInt n)))
  | .float x => .ok (.float (Number.narrow x))
  | .string s => .ok (.string s)
  | .array [x, y, z] => .ok (.vector ⟨coordinate x, coordinate y, coordinate z⟩)
  | other => .error (.unsupportedValue other)

/-- The scope that a word stands for. -/
def scope? : String → Option Variable.Scope
  | "global" => some .global
  | "local" => some .scene
  | _ => none

/-- The variable's id, which a binding makes unnecessary. -/
def readVariable (params : Json) (bound : Bool) : Except ParamError Int32 :=
  match (params.get? "variable").bind (·.int64?) with
  | some n =>
    match Number.int32? n with
    | some id => .ok id
    | none => .error (if 0 < n then .variableTooLarge else .variableTooSmall)
  | none => if bound then .ok 0 else .error (.missing "variable")

/-- A value can be added. -/
def isNumeric : Variable.Value → Bool
  | .integer _ | .float _ => true
  | _ => false

/-- A variable and a value are needed, or parameters for them. -/
def prepare (params : Json) : Except ParamError SetVariable := do
  let scopeWord := (Params.string? params "scope").getD "global"
  let scope ← match scope? scopeWord with
    | some scope => .ok scope
    | none => .error (.unknownScope scopeWord)
  let operation := (Params.string? params "operation").getD "set"
  let adds ←
    if operation = "set" then .ok false
    else if operation = "add" then .ok true
    else .error (.unknownOperation operation)
  let targetBinding := Params.binding? params "variable"
  let target ← readVariable params targetBinding.isSome
  let valueBinding := Params.binding? params "value"
  let value ← match params.get? "value" with
    | some j => readValue j
    | none => if valueBinding.isSome then .ok (.integer 0) else .error (.missing "value")
  if adds && !isNumeric value then .error .addendNotNumeric
  else .ok { scope, target, targetBinding, adds, value, valueBinding }

/-- The value of a parameter as a variable of the same type as `like` has it. -/
def take? (like : Variable.Value) (v : Parameter.Value) : Option Variable.Value :=
  match like with
  | .integer _ => v.integer?.map .integer
  | .float _ => v.float?.map .float
  | .boolean _ => v.boolean?.map .boolean
  | .string _ => v.string?.map .string
  | .vector _ => v.vector?.map .vector

/-- Takes over the variable and the value. -/
def assign (parameters : ParameterSet) (s : SetVariable) : SetVariable :=
  { s with
    target := parameters.assign (·.reference?) s.targetBinding s.target
    value := parameters.assign (take? s.value) s.valueBinding s.value }

/-- The sum of two numbers of 32 bits, or the nearest number to it. -/
def saturatingAdd (a b : Int32) : Int32 :=
  .ofInt (Number.clampInt32 (a.toInt + b.toInt))

/-- What adding to a value gives. Only numbers can be added to. -/
def add? : Option Variable.Value → Variable.Value → Option Variable.Value
  | none, v => some v
  | some (.integer a), .integer b => some (.integer (saturatingAdd a b))
  | some (.float a), .float b => some (.float (a + b))
  | some (.float a), .integer b => some (.float (a + Number.singleOfInt b.toInt))
  | some (.integer a), .float b => some (.float (Number.singleOfInt a.toInt + b))
  | some _, _ => none

/-- Writes the variable. -/
def run (vars : Variables) (s : SetVariable) : Outcome SetVariable :=
  let value? :=
    if s.adds then add? (vars.get? s.scope s.target) s.value else some s.value
  match value? with
  | some value => { behaviour := s, vars := vars.set s.scope s.target value }
  | none => { behaviour := s, vars, notices := [.addendNotNumeric] }

end SetVariable

end Cutscene
