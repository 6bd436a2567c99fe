import Cutscene.Schema.Basic
import Cutscene.Yaml.Node.Parser
import Cutscene.Yaml.Word

/-!
# YAML as structured data

Typed values are read from excerpts: a node with the nodes that its aliases stand for. Every scalar
is a text, a plain one may also be something else. A choice is a tag, or the text of a scalar
without a tag of its own. Collections may be nested a hundred and twenty-eight deep.
-/

namespace Cutscene.Yaml

/-- A node of a document, to be read. -/
structure Excerpt where
  node : Node
  /-- What aliases stand for. -/
  anchored : List (Nat × Node)
  /-- How deep collections may still be nested. -/
  depth : Nat
  /-- How many aliases may be followed to make one JSON value. -/
  patience : Nat

/-- The node that an alias stands for; of several with one number, the one that begins last. -/
def target? (anchored : List (Nat × Node)) : Node → Option Node
  | .alias anchor => anchored.reverse.lookup anchor
  | node => some node

/-- The tags of the language for plain values. -/
def languageTag (name : String) : String := "tag:yaml.org,2002:" ++ name

/-- The choice that a tag makes; tags of the language make none. -/
def choiceTag? (p : Properties) : Option String :=
  p.tag.bind fun tag => match tag.toList with
    | ['!'] => some "!"
    | '!' :: name => some (.ofList name)
    | _ => none

/-! ### JSON values -/

/-- The JSON value of a scalar with a tag of the language; other tags make a text. -/
def jsonOfTagged? (tag text : String) : Option Json :=
  if tag = languageTag "bool" then (truth? text).map .bool
  else if tag = languageTag "int" then (whole? text).bind jsonOfWhole?
  else if tag = languageTag "float" then (double? text).map jsonOfDouble
  else if tag = languageTag "null" then if isNullWord text then some .null else none
  else some (.string text)

/-- The JSON value of a scalar. -/
def jsonOfScalar? (p : Properties) (style : Style) (text : String) : Option Json :=
  match p.tag with
  | some tag => if (choiceTag? p).isSome then none else jsonOfTagged? tag text
  | none => if style = .plain then jsonOfWord? text else some (.string text)

/-- Follows an alias, as long as there is patience. -/
def follow (anchored : List (Nat × Node)) (node : Node) : StateT Nat Option Node := do
  match node with
  | .alias _ =>
    match ← get with
    | 0 => failure
    | patience + 1 => set patience
  | _ => pure ()
  target? anchored node

/-- The text of a scalar. -/
def scalarText (anchored : List (Nat × Node)) (node : Node) : StateT Nat Option String := do
  match ← follow anchored node with
  | .scalar _ _ text => return text
  | _ => failure

/-- The JSON value of a node. Its aliases use up patience, its collections depth. -/
def toJson (anchored : List (Nat × Node)) (depth : Nat) (node : Node) : StateT Nat Option Json := do
  match ← follow anchored node with
  | .scalar p style text => jsonOfScalar? p style text
  | .sequence p items =>
    match depth with
    | 0 => failure
    | depth + 1 =>
      if (choiceTag? p).isSome then failure
      else return .array (← items.mapM (toJson anchored depth))
  | .mapping p entries =>
    match depth with
    | 0 => failure
    | depth + 1 =>
      if (choiceTag? p).isSome then failure
      else
        let member (entry : Node × Node) : StateT Nat Option (String × Json) := do
          let key ← scalarText anchored entry.1
          return (key, ← toJson anchored depth entry.2)
        return .object (Json.normalMembers [] (← entries.mapM member))
  | .alias _ => failure

namespace Excerpt

/-- The node itself, an alias followed. -/
def resolved? (x : Excerpt) : Option Node := target? x.anchored x.node

/-- A node inside of a collection. -/
def inside (x : Excerpt) (node : Node) : Excerpt := { x with node, depth := x.depth - 1 }

/-- A plain scalar; a literal one is read like it if it has the tag of the expected type. -/
def word? (x : Excerpt) (name : String) : Option String := do
  match ← x.resolved? with
  | .scalar p style text =>
    if style = .plain ∨ (style = .literal ∧ p.tag = some (languageTag name)) then return text
    else none
  | _ => none

/-- The text of a scalar. -/
def text? (x : Excerpt) : Option String := do
  match ← x.resolved? with
  | .scalar _ _ text => return text
  | _ => none

/-- A plain scalar without a text is a collection without members. -/
def isBlank (style : Style) (text : String) : Bool := style = .plain && text.isEmpty

/-- The items of a sequence. -/
def items? (x : Excerpt) : Option (List Excerpt) := do
  match ← x.resolved? with
  | .sequence _ items => if x.depth = 0 then none else return items.map x.inside
  | .scalar _ style text => if isBlank style text then return [] else none
  | _ => none

/-- The entries of a mapping whose keys are scalars. -/
def members? (x : Excerpt) : Option (List (String × Excerpt)) := do
  match ← x.resolved? with
  | .mapping _ entries =>
    if x.depth = 0 then none
    else entries.mapM fun (key, value) => do return (← (x.inside key).text?, x.inside value)
  | .scalar _ style text => if isBlank style text then return [] else none
  | _ => none

/-- The value with a key, which may not occur twice. -/
def field? (members : List (String × Excerpt)) (name : String) : Option (Option Excerpt) :=
  match members.filter (·.1 = name) with
  | [] => some none
  | [(_, value)] => some (some value)
  | _ => none

/-- What there is, if it does not say that there is nothing. -/
def present? (x : Excerpt) : Option (Option Excerpt) := do
  match ← x.resolved? with
  | .scalar p .plain text =>
    if p.tag = some (languageTag "null") then if isNullWord text then return none else none
    else if p.tag.isNone && (text.isEmpty || isNullWord text) then return none
    else return some x
  | _ => return some x

/-- A tag with the node that it is put on, or else the text of a scalar. -/
def choice? (x : Excerpt) : Option (String × Option Excerpt) := do
  let node ← x.resolved?
  match choiceTag? node.properties, node with
  | some name, _ => return (name, some { x with node := node.untagged })
  | none, .scalar _ _ text => return (text, none)
  | none, _ => none

instance : Structured Excerpt where
  text? := text?
  flag? x := (x.word? "bool").bind truth?
  whole? x := (x.word? "int").bind fun word =>
    (Yaml.whole? word).bind fun n => if Number.FitsInt64 n then some n else none
  natural? x := (x.word? "int").bind Yaml.natural?
  single? x := ((x.word? "float").bind double?).map Number.narrow
  present? := present?
  items? := items?
  fields? names x := do (names.mapM (field? (← x.members?)) : Option _)
  members? := members?
  choice? := choice?
  json? x := ((toJson x.anchored x.depth x.node).run x.patience).map (·.1)

/-- The whole of a text that holds at most one document. -/
def ofText? (text : String) : Option Excerpt :=
  (Node.ofText? text).map fun node =>
    { node, anchored := node.anchored, depth := 128, patience := 100 * node.size }

end Excerpt

end Cutscene.Yaml
