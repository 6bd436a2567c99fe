import Cutscene.Document.Basic
import Cutscene.Schema.Basic
import Cutscene.Engine.Operations

/-!
# Reading the types of the library

The layout of each type in structured data: the names of its fields, which of them are needed, and
the names of its choices.
-/

namespace Cutscene

open Schema

variable {τ : Type} [Structured τ]

/-- Reads a vector. -/
def Vector3.of? (t : τ) : Option Vector3 := do
  match ← Structured.fields? ["x", "y", "z"] t with
  | [x, y, z] =>
    return ⟨← required Structured.single? x, ← required Structured.single? y,
      ← required Structured.single? z⟩
  | _ => none

/-- Reads a value of a parameter. -/
def Parameter.Value.of? (t : τ) : Option Parameter.Value := do
  let (name, payload) ← Structured.choice? t
  match name with
  | "Integer" => carrying .integer int32? payload
  | "Float" => carrying .float Structured.single? payload
  | "String" => carrying .string Structured.text? payload
  | "Vector3" => carrying .vector Vector3.of? payload
  | "Boolean" => carrying .boolean Structured.flag? payload
  | "PopUp" => carrying .popUp int32? payload
  | "GameObject" => carrying .gameObject int32? payload
  | "Asset" => carrying .asset Structured.text? payload
  | "GlobalVariable" => carrying .globalVariable int32? payload
  | "LocalVariable" => carrying .localVariable int32? payload
  | "InventoryItem" => carrying .inventoryItem int32? payload
  | "Document" => carrying .document int32? payload
  | _ => none

/-- Reads a parameter. -/
def Parameter.of? (t : τ) : Option Parameter := do
  match ← Structured.fields? ["id", "label", "value"] t with
  | [id, label, value] =>
    return { id := ← required int32? id
             label := ← optional "" Structured.text? label
             value := ← required Parameter.Value.of? value }
  | _ => none

/-- Reads a value of a variable. -/
def Variable.Value.of? (t : τ) : Option Variable.Value := do
  let (name, payload) ← Structured.choice? t
  match name with
  | "Integer" => carrying .integer int32? payload
  | "Float" => carrying .float Structured.single? payload
  | "Boolean" => carrying .boolean Structured.flag? payload
  | "String" => carrying .string Structured.text? payload
  | "Vector3" => carrying .vector Vector3.of? payload
  | _ => none

/-- Reads the scope of a variable. -/
def Variable.Scope.of? (t : τ) : Option Variable.Scope := do
  let (name, payload) ← Structured.choice? t
  match name with
  | "Global" => bare .global payload
  | "Local" => bare .scene payload
  | _ => none

/-- Reads a variable. -/
def Variable.of? (t : τ) : Option Variable := do
  match ← Structured.fields? ["id", "label", "value"] t with
  | [id, label, value] =>
    return { id := ← required int32? id
             label := ← required Structured.text? label
             value := ← required Variable.Value.of? value }
  | _ => none

/-- Reads what a save slot holds. -/
def SaveSlot.of? (t : τ) : Option SaveSlot := do
  match ← Structured.fields? ["active_lists", "global_variables"] t with
  | [records, globals] =>
    return { records := ← required Structured.text? records
             globals := ← optional [] (listOf Variable.of?) globals }
  | _ => none

/-- Reads a mode. -/
def Mode.of? (t : τ) : Option Mode := do
  let (name, payload) ← Structured.choice? t
  match name with
  | "PauseGameplay" => bare .blocking payload
  | "RunInBackground" => bare .background payload
  | _ => none

/-- Reads settings. What is not said is as it is by default. -/
def Settings.of? (t : τ) : Option Settings := do
  match ← Structured.fields? ["mode", "skippable", "multi_instance", "survive_scene_change",
      "unfreeze_pause_menus", "start_delay"] t with
  | [mode, skippable, multiInstance, survives, unfreezes, delay] =>
    return { mode := ← optional .blocking Mode.of? mode
             skippable := ← optional true Structured.flag? skippable
             multiInstance := ← optional false Structured.flag? multiInstance
             survivesSceneChange := ← optional false Structured.flag? survives
             unfreezeMenus := ← optional none (nullable Structured.flag?) unfreezes
             startDelay := ← optional 0 Structured.single? delay }
  | _ => none

/-- Reads the tuning of an engine. What is not said is as it is by default. -/
def Config.of? (t : τ) : Option Config := do
  match ← Structured.fields? ["skip_hop_factor", "tick_rate", "max_commands_per_flush",
      "unfreeze_pause_menus"] t with
  | [hopFactor, tickRate, budget, unfreezes] =>
    return { hopFactor := ← optional 3 word? hopFactor
             tickRate := ← optional 60 (natBelow? UInt32.size) tickRate
             commandBudget := ← optional 1024 word? budget
             unfreezeMenus := ← optional false Structured.flag? unfreezes }
  | _ => none

/-- Reads an ending. -/
def Ending.of? (t : τ) : Option Ending := do
  let (name, payload) ← Structured.choice? t
  match name with
  | "Continue" => bare .next payload
  | "Stop" => bare .stop payload
  | "SkipTo" => carrying .goto word? payload
  | "RunGraph" => carrying .start Structured.text? payload
  | _ => none

/-- Reads a node of a graph. -/
def Graph.Node.of? (t : τ) : Option Graph.Node := do
  match ← Structured.fields? ["kind", "id", "title", "enabled", "endings", "params"] t with
  | [kind, id, title, enabled, endings, params] =>
    return { kind := ← required Structured.text? kind
             id := ← optional "" Structured.text? id
             title := ← optional "" Structured.text? title
             enabled := ← optional true Structured.flag? enabled
             endings := ← optional [.next] (listOf Ending.of?) endings
             params := ← optional .null Structured.json? params }
  | _ => none

/-- Reads a graph. -/
def Graph.of? (t : τ) : Option Graph := do
  match ← Structured.fields? ["id", "name", "nodes", "start_index", "parameters", "settings"] t with
  | [id, name, nodes, start, parameters, settings] =>
    return { id := ← required Structured.text? id
             name := ← required Structured.text? name
             nodes := ← required (listOf Graph.Node.of?) nodes
             start := ← optional 0 word? start
             parameters := ← optional [] (listOf Parameter.of?) parameters
             settings := ← optional {} Settings.of? settings }
  | _ => none

/-- Reads a node of a document. -/
def Document.Node.of? (t : τ) : Option Document.Node := do
  match ← Structured.fields? ["id", "kind", "title", "enabled", "params", "outputs"] t with
  | [id, kind, title, enabled, params, outputs] =>
    return { id := ← required Structured.text? id
             kind := ← required Structured.text? kind
             title := ← optional "" Structured.text? title
             enabled := ← optional true Structured.flag? enabled
             params := ← optional [] members? params
             outputs := ← optional ["continue"] (listOf Structured.text?) outputs }
  | _ => none

/-- Reads a document. -/
def Document.of? (t : τ) : Option Document := do
  match ← Structured.fields? ["id", "name", "start", "settings", "parameters", "nodes"] t with
  | [id, name, start, settings, parameters, nodes] =>
    return { id := ← required Structured.text? id
             name := ← optional "" Structured.text? name
             start := ← optional none (nullable Structured.text?) start
             settings := ← optional {} Settings.of? settings
             parameters := ← optional [] (listOf Parameter.of?) parameters
             nodes := ← required (listOf Document.Node.of?) nodes }
  | _ => none

end Cutscene
