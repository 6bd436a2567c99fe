import Cutscene.Json.Parse
import Cutscene.Schema.Graph

/-!
# JSON as structured data

Records may also be written as arrays of their fields in order, of which the last ones may be
missing. A choice is a name, or an object with the name as its only key.
-/

namespace Cutscene.Json

/-- The values under a key. -/
def valuesOf (key : String) (members : List (String × Json)) : List Json :=
  (members.filter (·.1 = key)).map (·.2)

/-- The fields of a record, none of which may occur twice. -/
def fieldsOf? (members : List (String × Json)) : List String → Option (List (Option Json))
  | [] => some []
  | name :: names =>
    match valuesOf name members with
    | [] => (fieldsOf? members names).map (none :: ·)
    | [j] => (fieldsOf? members names).map (some j :: ·)
    | _ => none

/-- The fields of a record written as an array. -/
def positional? (names : List String) (items : List Json) : Option (List (Option Json)) :=
  if items.length ≤ names.length then
    some (items.map some ++ List.replicate (names.length - items.length) none)
  else none

instance : Structured Json where
  text? := string?
  flag? := bool?
  whole?
    | .int n => some n
    | _ => none
  natural? := nat?
  single?
    | .int n => some (Number.singleOfInt n)
    | .float x => if x.isFinite then some (Number.narrow x) else none
    | _ => none
  present?
    | .null => some none
    | j => some (some j)
  items? := items?
  fields? names
    | .object members => fieldsOf? members names
    | .array items => positional? names items
    | _ => none
  members?
    | .object members => some members
    | _ => none
  choice?
    | .string name => some (name, none)
    | .object [(name, payload)] => some (name, some payload)
    | _ => none
  json? j := if j.isFinite then some j.normal else none

/-- Data may be nested this deep. -/
def depthLimit : Nat := 127

/-- Reads a graph from the text of a JSON value. The params of a node lie three levels deep. -/
def graphOfText? (s : String) : Option Graph := do
  let j ← parse? s
  let graph ← Graph.of? j
  if graph.nodes.all fun node => node.params.depth + 3 ≤ depthLimit then some graph else none

end Cutscene.Json
