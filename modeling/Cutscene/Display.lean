import Cutscene.Command
import Cutscene.Document.Basic
import Cutscene.Event
import Cutscene.Variables

/-!
# Display forms

How values, graphs and documents are shown: as JSON in the layout in which they are read, except
that a value is shown as the name of its kind and its text, and a delay as its shortest text.
-/

namespace Cutscene

/-- A number of 32 bits as JSON. -/
def Json.ofInt32 (n : Int32) : Json := .int n.toInt

/-- A value that may be missing as JSON. -/
def Json.ofOption {α : Type} (display : α → Json) : Option α → Json
  | some a => display a
  | none => .null

/-- Values in a row as JSON. -/
def Json.ofList {α : Type} (display : α → Json) (as : List α) : Json := .array (as.map display)

/-- A value shown as its kind and its text. -/
def Json.ofKind (kind text : String) : Json :=
  .object [("kind", .string kind), ("text", .string text)]

/-! ### Parameters and variables -/

namespace Parameter

/-- The value with its kind. -/
def Value.display (v : Value) : Json := .ofKind v.kind.name v.literal

/-- The parameter as a record. -/
def display (p : Parameter) : Json :=
  .object [("id", .ofInt32 p.id), ("label", .string p.label), ("value", p.value.display)]

/-- The parameter in a row. -/
def row (p : Parameter) : Json := .array [.ofInt32 p.id, .string p.label, p.value.display]

end Parameter

namespace Variable

/-- The name of the kind of a value. -/
def Value.kindName : Value → String
  | .integer _ => "Integer"
  | .float _ => "Float"
  | .boolean _ => "Boolean"
  | .string _ => "String"
  | .vector _ => "Vector3"

/-- The text of a value. -/
def Value.text : Value → String
  | .integer n => toString n.toInt
  | .float x => Number.singleText x
  | .boolean b => if b then "true" else "false"
  | .string s => s
  | .vector v => v.text

/-- The value with its kind. -/
def Value.display (v : Value) : Json := .ofKind v.kindName v.text

/-- The variable in a row. -/
def row (v : Variable) : Json := .array [.ofInt32 v.id, .string v.label, v.value.display]

end Variable

/-! ### Graphs and documents -/

/-- The name of a mode. -/
def Mode.name : Mode → String
  | .blocking => "PauseGameplay"
  | .background => "RunInBackground"

/-- The settings as a record. -/
def Settings.display (s : Settings) : Json :=
  .object [("mode", .string s.mode.name), ("skippable", .bool s.skippable),
    ("multi_instance", .bool s.multiInstance),
    ("survive_scene_change", .bool s.survivesSceneChange),
    ("unfreeze_pause_menus", .ofOption .bool s.unfreezeMenus),
    ("start_delay", .string (Number.singleText s.startDelay))]

/-- The ending as a choice. -/
def Ending.display : Ending → Json
  | .next => .string "Continue"
  | .stop => .string "Stop"
  | .goto target => .object [("SkipTo", .int target)]
  | .start graph => .object [("RunGraph", .string graph)]

/-- The node as a record. -/
def Graph.Node.display (n : Graph.Node) : Json :=
  .object [("kind", .string n.kind), ("id", .string n.id), ("title", .string n.title),
    ("enabled", .bool n.enabled), ("endings", .ofList Ending.display n.endings),
    ("params", n.params)]

/-- The graph as a record. -/
def Graph.display (g : Graph) : Json :=
  .object [("id", .string g.id), ("name", .string g.name),
    ("nodes", .ofList Graph.Node.display g.nodes), ("start_index", .int g.start),
    ("parameters", .ofList Parameter.display g.parameters), ("settings", g.settings.display)]

/-- The node as a record. -/
def Document.Node.display (n : Document.Node) : Json :=
  .object [("id", .string n.id), ("kind", .string n.kind), ("title", .string n.title),
    ("enabled", .bool n.enabled), ("params", .object n.params),
    ("outputs", .ofList .string n.outputs)]

/-- The document as a record. -/
def Document.display (d : Document) : Json :=
  .object [("id", .string d.id), ("name", .string d.name), ("start", .ofOption .string d.start),
    ("settings", d.settings.display), ("parameters", .ofList Parameter.display d.parameters),
    ("nodes", .ofList Document.Node.display d.nodes)]

/-! ### Commands and events -/

/-- The command in a row. -/
def Command.row : Command → Json
  | .start graph place queue atOnce =>
    .array [.string "start", .string graph, .int place, .bool queue, .bool atOnce]
  | .kill graph => .array [.string "kill", .string graph]
  | .pause graph => .array [.string "pause", .string graph]
  | .resume graph rerun => .array [.string "resume", .string graph, .bool rerun]
  | .skip graph => .array [.string "skip", .string graph]

/-- What there is to say about what happened, its name aside. -/
def Event.Kind.details : Event.Kind → List Json
  | .began start => [.int start]
  | .ended killed => [.bool killed]
  | .paused points => [.ofList (fun n => .int (n : Nat)) points]
  | .resumed => []
  | .skipped start => [.int start]
  | .conversationDue conversation => [.string conversation]

/-- The notice in a row: its level, its line and, of a comment, the text. -/
def Notice.row (n : Notice) : Json :=
  let comment : List Json := match n with
    | .commented text => [.string text]
    | _ => []
  .array (.string n.level.word :: .string n.message :: comment)

end Cutscene
