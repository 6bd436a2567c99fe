import Cutscene.Graph
import Cutscene.Table

/-!
# Documents

A document is a graph as an author writes it: nodes refer to each other by their ids, and outputs
are words. `Compiler.compile` turns it into a graph; `CompileError` lists what can be wrong with it.
-/

namespace Cutscene

/-- A node as an author writes it. -/
structure Document.Node where
  id : String
  kind : String
  title : String := ""
  enabled : Bool := true
  /-- Params by name, names ascending. -/
  params : List (String × Json) := []
  /-- For each output `continue`, `stop`, `goto:` with a node, or `run:` with a graph. -/
  outputs : List String := ["continue"]

/-- A graph as an author writes it. -/
structure Document where
  id : String
  name : String := ""
  /-- The node that a plain trigger starts at, if that is not the first one. -/
  start : Option String := none
  settings : Settings := {}
  parameters : List Parameter := []
  nodes : List Document.Node

/-- What is wrong with a document. -/
inductive CompileError where
  | noId
  | duplicateNode (id : String)
  | noSuchNode (id : String)
  | malformedOutput (output : String)
  | noGraphNamed (output : String)
  /-- An output of a node is wrong. -/
  | inNode (id : String) (error : CompileError)
deriving DecidableEq, Repr

/-- What is said of a mistake. -/
def CompileError.message : CompileError → String
  | .noId => "Graph has no id"
  | .duplicateNode id => "Duplicate node ID: " ++ id
  | .noSuchNode id => "Target node not found: " ++ id
  | .malformedOutput output => "Malformed output: " ++ output
  | .noGraphNamed output => "Output " ++ output ++ " names no graph"
  | .inNode id error => "Node " ++ id ++ ": " ++ error.message

/-! ### Compiling -/

/-- Turns documents into graphs. It keeps the places of the nodes of a document until the next one
comes, whether the document was compiled or not. -/
structure Compiler where
  places : Table Nat := {}

namespace Compiler

/-- Notes the places of nodes, the first of which has the place given, up to one whose id has a
place already. -/
def note (c : Compiler) (place : Nat) : List Document.Node → Compiler × Except CompileError Unit
  | [] => (c, .ok ())
  | node :: rest =>
    let noted : Compiler := ⟨c.places.insert node.id place⟩
    if c.places.contains node.id then (noted, .error (.duplicateNode node.id))
    else noted.note (place + 1) rest

/-- The place of the node with an id. -/
def target (c : Compiler) (id : String) : Except CompileError Nat :=
  match c.places.get? id with
  | some index => .ok index
  | none => .error (.noSuchNode id)

/-- What follows a word at the front of a text, trimmed. -/
def afterWord? (word text : String) : Option String :=
  if word.toList.isPrefixOf text.toList then
    some (Text.trim (.ofList (text.toList.drop word.length)))
  else none

/-- The ending that an output stands for. -/
def ending (c : Compiler) (output : String) : Except CompileError Ending :=
  let output := Text.trim output
  match afterWord? "goto:" output with
  | some id => (c.target id).map .goto
  | none =>
    match afterWord? "run:" output with
    | some graph => if graph.isEmpty then .error (.noGraphNamed output) else .ok (.start graph)
    | none =>
      if output = "continue" then .ok .next
      else if output = "stop" then .ok .stop
      else .error (.malformedOutput output)

/-- Compiles a node. -/
def node (c : Compiler) (node : Document.Node) : Except CompileError Graph.Node :=
  match node.outputs.mapM c.ending with
  | .error error => .error (.inNode node.id error)
  | .ok endings =>
    .ok { kind := node.kind, id := node.id, title := node.title, enabled := node.enabled, endings,
          params := .object node.params }

/-- The place where a plain trigger starts. -/
def start (c : Compiler) : Option String → Except CompileError Nat
  | some id => c.target id
  | none => .ok 0

/-- Makes the graph once the places of the nodes are known, or finds the first mistake in outputs,
then in the start. A graph without a name is named by its id. -/
def graph (c : Compiler) (doc : Document) : Except CompileError Graph := do
  let nodes ← doc.nodes.mapM c.node
  let start ← c.start doc.start
  return { id := doc.id, name := if doc.name.isEmpty then doc.id else doc.name, nodes, start,
           parameters := doc.parameters, settings := doc.settings }

/-- Turns a document into a graph, or finds the first mistake: a missing id, then ids that occur
twice, then what `graph` finds. What is left of the document before is forgotten. -/
def compile (c : Compiler) (doc : Document) : Compiler × Except CompileError Graph :=
  let c := { c with places := {} }
  if (Text.trim doc.id).isEmpty then (c, .error .noId)
  else
    match c.note 0 doc.nodes with
    | (c, .error error) => (c, .error error)
    | (c, .ok ()) => (c, c.graph doc)

end Compiler

/-- Turns a document into a graph with a compiler of its own. -/
def Document.compile (doc : Document) : Except CompileError Graph :=
  (({} : Compiler).compile doc).2

end Cutscene
