import Cutscene.Json.Basic
import Cutscene.NodeKind

/-!
# Reading params

What node kinds look for in the params of a node. A field of the wrong type counts as missing.
-/

namespace Cutscene.Params

/-- The text in a field. -/
def string? (params : Json) (field : String) : Option String :=
  (params.get? field).bind (·.string?)

/-- The text in a field that has to be there. -/
def required (params : Json) (field : String) : Except ParamError String :=
  match string? params field with
  | some s => .ok s
  | none => .error (.missing field)

/-- The truth value in a field. -/
def flag (params : Json) (field : String) (otherwise : Bool) : Bool :=
  ((params.get? field).bind (·.bool?)).getD otherwise

/-- The natural number in a field. -/
def nat? (params : Json) (field : String) : Option Nat :=
  (params.get? field).bind (·.nat?)

/-- A number as a single. -/
def singleOf? : Json → Option Float32
  | .int n => some (Number.narrow (Number.doubleOfInt n))
  | .float x => some (Number.narrow x)
  | _ => none

/-- The number in a field, as a single. -/
def single? (params : Json) (field : String) : Option Float32 :=
  (params.get? field).bind singleOf?

/-- The parameter that a field is bound to. -/
def binding? (params : Json) (field : String) : Option Int32 :=
  ((params.get? (field ++ "_parameter")).bind (·.int64?)).bind Number.int32?

end Cutscene.Params
