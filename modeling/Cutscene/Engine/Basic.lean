import Cutscene.Graph
import Cutscene.NodeKind
import Cutscene.Playback.Operations
import Cutscene.Table

/-!
# The engine

An engine holds graphs, the kinds of their nodes, and playbacks. A graph is registered in editions:
registering it again makes a new one. The nodes of a graph with a single instance are parked while
there is no instance, with the state that the last run left; of a graph with many instances the
nodes are prepared once and copied for each.
-/

namespace Cutscene

/-- A registered graph. -/
structure Edition where
  number : Nat
  graph : Graph

/-- Graphs, kinds of nodes, playbacks, and the world they share. -/
structure Engine (β : Type) where
  world : World β := {}
  kinds : Table (NodeKind β) := {}
  graphs : Table Edition := {}
  /-- Nodes that wait for their next instance. -/
  parked : Table (List (Node β)) := {}
  /-- In the order of their creation. -/
  instances : List (Playback β) := []
  /-- Graphs that must not be triggered. -/
  disabled : List String := []
  /-- The id of the next instance. -/
  nextId : Nat := 0
  /-- The number of the next edition. -/
  nextEdition : Nat := 0

/-- Why an engine refuses. -/
inductive EngineError where
  | unknownGraph (graph : String)
  | unknownInstance
  | disabled (graph : String)
  | unknownKind (graph : String) (index : Nat) (kind : String)
  | invalidNode (graph : String) (index : Nat) (reason : ParamError)

/-- What is said of a refusal, unless a reason in it cannot be said. -/
def EngineError.message? : EngineError → Option String
  | .unknownGraph graph => some ("graph not found: " ++ graph)
  | .unknownInstance => some "instance not found"
  | .disabled graph => some ("graph " ++ graph ++ " is disabled")
  | .unknownKind graph index kind =>
    some ("no definition for node kind " ++ kind ++ " (graph " ++ graph ++ ", node " ++
      toString index ++ ")")
  | .invalidNode graph index reason =>
    reason.message?.map fun reason =>
      "invalid node " ++ toString index ++ " in graph " ++ graph ++ ": " ++ reason

namespace Engine

variable {β : Type}

/-- An engine that knows some kinds of nodes. -/
def ofKinds (config : Config) (kinds : List (NodeKind β)) : Engine β where
  world := { config }
  kinds := kinds.foldl (fun t k => t.insert k.name k) {}

/-- Adds a notice to the journal. -/
def notice (e : Engine β) (notice : Notice) : Engine β :=
  { e with world := e.world.notice notice }

/-- Adds notices to the journal, in order. -/
def noticeAll (e : Engine β) (notices : List Notice) : Engine β :=
  { e with world := e.world.noticeAll notices }

/-- Changes the registry. -/
def withRegistry (e : Engine β) (registry : Registry) : Engine β :=
  { e with world := { e.world with registry } }

/-! ### Graphs -/

/-- Registers a graph. Instances of an older edition keep the nodes they have. -/
def register (e : Engine β) (graph : Graph) : Engine β :=
  { e with
    graphs := e.graphs.insert graph.id ⟨e.nextEdition, graph⟩
    parked := e.parked.erase graph.id
    nextEdition := e.nextEdition + 1 }

/-- Judges nodes from a place in a graph on. -/
def validateFrom (e : Engine β) (graph : String) (index : Nat) :
    List Graph.Node → Except EngineError Unit
  | [] => .ok ()
  | node :: rest =>
    match e.kinds.get? node.kind with
    | none => .error (.unknownKind graph index node.kind)
    | some kind =>
      match kind.validate node.params with
      | .error reason => .error (.invalidNode graph index reason)
      | .ok () => e.validateFrom graph (index + 1) rest

/-- Every kind of node in the graph is known and accepts its params. -/
def validate (e : Engine β) (graph : Graph) : Except EngineError Unit :=
  e.validateFrom graph.id 0 graph.nodes

/-- The graph may be triggered. -/
def isEnabled (e : Engine β) (graph : String) : Bool := !e.disabled.contains graph

/-- Lets a graph be triggered, or forbids it. -/
def setEnabled (e : Engine β) (graph : String) (on : Bool) : Engine β :=
  let others := e.disabled.filter (· ≠ graph)
  { e with disabled := if on then others else graph :: others }

/-! ### Nodes -/

/-- Makes a node as a graph describes it. Without a behaviour it is passed over. -/
def prepareNode (e : Engine β) (node : Graph.Node) : Node β × List Notice :=
  let made (behaviour : Option β) : Node β :=
    { id := node.id, kind := node.kind, title := node.title, enabled := node.enabled,
      endings := node.endings, behaviour }
  match e.kinds.get? node.kind with
  | none => (made none, [.nodeKindUnknown])
  | some kind =>
    match kind.prepare node.params with
    | .error _ => (made none, [.nodeNotPrepared])
    | .ok b => (made (some b), [])

/-- Makes the nodes of a graph. -/
def prepare (e : Engine β) (graph : Graph) : List (Node β) × List Notice :=
  let made := graph.nodes.map e.prepareNode
  (made.map (·.1), made.flatMap (·.2))

/-! ### Instances -/

/-- The instance with an id. -/
def instance? (e : Engine β) (id : Nat) : Option (Playback β) := e.instances.find? (·.id = id)

/-- The instances of a graph. -/
def instancesOf (e : Engine β) (graph : String) : List Nat :=
  (e.instances.filter (·.graph = graph)).map (·.id)

/-- Puts a playback in the place of the instance with its id, and the world it leaves. -/
def put (e : Engine β) (r : Playback β × World β) : Engine β :=
  { e with
    instances := e.instances.map fun p => if p.id = r.1.id then r.1 else p
    world := r.2 }

/-- Changes an instance, and what there is to say about it. -/
def modifyInstance (e : Engine β) (id : Nat) (f : Playback β → Playback β × List Notice) :
    Engine β :=
  match e.instance? id with
  | none => e
  | some p =>
    let (p, notices) := f p
    e.put (p, e.world.noticeAll notices)

/-- Some instance blocks gameplay. -/
def isGameplayBlocked (e : Engine β) : Bool :=
  e.instances.any fun p => p.isRunning && p.settings.mode = .blocking

/-- Makes an instance of an edition. -/
def create (e : Engine β) (edition : Edition) (nodes : List (Node β)) : Engine β × Nat :=
  let p : Playback β :=
    { id := e.nextId
      graph := edition.graph.id
      nodes
      parameters := ⟨edition.graph.parameters⟩
      settings := edition.graph.settings
      defaultStart := edition.graph.start
      edition := some edition.number }
  ({ e with instances := e.instances ++ [p], nextId := e.nextId + 1 }, e.nextId)

/-- Finds the instance that a trigger uses, or makes it. -/
def spawn (e : Engine β) (graph : String) : Except EngineError (Engine β × Nat) :=
  match e.graphs.get? graph with
  | none => .error (.unknownGraph graph)
  | some edition =>
    if edition.graph.settings.multiInstance then
      match e.parked.get? graph with
      | some nodes => .ok (e.create edition nodes)
      | none =>
        let (nodes, notices) := e.prepare edition.graph
        let e := { e with parked := e.parked.insert graph nodes }
        .ok ((e.noticeAll notices).create edition nodes)
    else
      match e.instances.find? (·.graph = graph) with
      | some p => .ok (e, p.id)
      | none =>
        match e.parked.get? graph with
        | some nodes => .ok ({ e with parked := e.parked.erase graph }.create edition nodes)
        | none =>
          let (nodes, notices) := e.prepare edition.graph
          .ok ((e.noticeAll notices).create edition nodes)

/-- Keeps the nodes of a single instance for the next one, if the graph still has the edition that
they belong to. -/
def park (e : Engine β) (p : Playback β) : Engine β :=
  if p.settings.multiInstance then e
  else
    match e.graphs.get? p.graph with
    | none => e
    | some edition =>
      if p.edition = some edition.number then
        { e with parked := e.parked.insert p.graph p.nodes }
      else e

/-- Takes an instance out of the engine. -/
def release (e : Engine β) (id : Nat) : Engine β :=
  match e.instance? id with
  | none => e
  | some p => { e with instances := e.instances.filter (·.id ≠ id) }.park p

/-- The instance is over, and nothing will ask for it. -/
def isDone (e : Engine β) (p : Playback β) : Bool :=
  match p.phase with
  | .finished => !p.settings.survivesSceneChange
  | .idle => !p.settings.survivesSceneChange && (e.world.registry.record? p.id).isNone
  | .running | .paused => false

/-- Drops the records and the instances that are of no further use. -/
def collect (e : Engine β) : Engine β :=
  let e := e.withRegistry e.world.registry.purge
  let (done, kept) := e.instances.partition e.isDone
  done.foldl park { e with instances := kept }

end Engine

end Cutscene
