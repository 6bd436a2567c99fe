import Cutscene.Vector3

/-!
# Variables

Game variables in two scopes, addressed by id and labelled for conditions. Each scope keeps its
variables in the order of their ids.
-/

namespace Cutscene

/-- What a variable holds. -/
inductive Variable.Value where
  | integer (value : Int32)
  | float (value : Float32)
  | boolean (value : Bool)
  | string (value : String)
  | vector (value : Vector3)
deriving DecidableEq

/-- A labelled value with an id. -/
structure Variable where
  id : Int32
  label : String
  value : Variable.Value
deriving DecidableEq

/-- Where a variable lives: everywhere, or in the scene, which the host can clear. -/
inductive Variable.Scope where
  | global
  | scene
deriving DecidableEq, Repr

/-- The variables of both scopes. -/
structure Variables where
  global : List Variable := []
  scene : List Variable := []
deriving DecidableEq

namespace Variables

/-- The variables of a scope, ids ascending. -/
def list (vs : Variables) : Variable.Scope → List Variable
  | .global => vs.global
  | .scene => vs.scene

/-- Gives a scope other variables. -/
def withList (vs : Variables) (scope : Variable.Scope) (list : List Variable) : Variables :=
  match scope with
  | .global => { vs with global := list }
  | .scene => { vs with scene := list }

/-- Puts a variable among others in the order of ids, in the place of one with its id. -/
def insert (v : Variable) : List Variable → List Variable
  | [] => [v]
  | w :: rest =>
    if v.id = w.id then v :: rest
    else if v.id < w.id then v :: w :: rest
    else w :: insert v rest

/-- Defines a variable, in the place of one with its id. -/
def define (vs : Variables) (scope : Variable.Scope) (v : Variable) : Variables :=
  vs.withList scope (insert v (vs.list scope))

/-- The variable with an id. -/
def find? (vs : Variables) (scope : Variable.Scope) (id : Int32) : Option Variable :=
  (vs.list scope).find? (·.id = id)

/-- The value of the variable with an id. -/
def get? (vs : Variables) (scope : Variable.Scope) (id : Int32) : Option Variable.Value :=
  (vs.find? scope id).map (·.value)

/-- The value of the variable with a label; the scene hides the global scope. -/
def byLabel? (vs : Variables) (label : String) : Option Variable.Value :=
  let find (list : List Variable) := (list.find? (·.label = label)).map (·.value)
  (find vs.scene).or (find vs.global)

/-- Writes a variable; one that is not defined yet is labelled by its id. -/
def set (vs : Variables) (scope : Variable.Scope) (id : Int32) (value : Variable.Value) :
    Variables :=
  match vs.find? scope id with
  | some v => vs.define scope { v with value }
  | none => vs.define scope ⟨id, "var" ++ toString id.toInt, value⟩

/-- Forgets the variables of the scene. -/
def clearScene (vs : Variables) : Variables := { vs with scene := [] }

/-- Gives a scope the listed variables and no others; the last of equal ids counts. -/
def restore (vs : Variables) (scope : Variable.Scope) (list : List Variable) : Variables :=
  vs.withList scope (list.foldl (fun done v => insert v done) [])

end Variables

end Cutscene
