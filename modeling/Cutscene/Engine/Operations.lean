import Cutscene.Engine.Basic

/-!
# What a host does with an engine

Every operation ends by applying the commands that were raised (`Engine.flush`) and by dropping what
is of no further use. Operations take `fuel`, the number of branches that one turn of a playback
may take up, and have no answer if that is not enough; `flush` itself is bounded by the budget for
commands.
-/

namespace Cutscene

/-- How to start a graph. -/
structure Trigger where
  /-- The graph's own start, unless a node is given. -/
  start : Option Nat := none
  queue : Bool := true
  conversation : Option String := none
  /-- Values for parameters. -/
  parameters : List (Int32 × Parameter.Value) := []
  /-- Run to the end at once. -/
  skip : Bool := false

namespace Engine

variable {β : Type} [Behaviour β]

/-! ### Parts of operations -/

/-- Sets parameters one after the other, and what there is to say about those not taken. -/
def override (s : ParameterSet) :
    List (Int32 × Parameter.Value) → ParameterSet × List Notice
  | [] => (s, [])
  | (id, value) :: rest =>
    match s.set id value with
    | .ok s => override s rest
    | .error refusal =>
      let (s, notices) := override s rest
      (s, refusal.notice :: .overrideNotApplied :: notices)

/-- Starts a graph, without applying commands. -/
def begin (fuel : Nat) (e : Engine β) (graph : String) (trigger : Trigger) :
    Option (Engine β × Except EngineError Nat) :=
  if !e.graphs.contains graph then some (e, .error (.unknownGraph graph))
  else if !e.isEnabled graph then some (e.notice .graphDisabled, .error (.disabled graph))
  else
    match e.spawn graph with
    | .error error => some (e, .error error)
    | .ok (e, id) =>
      match e.instance? id with
      | none => some (e, .error .unknownInstance)
      | some p =>
        let (parameters, notices) := override p.parameters trigger.parameters
        let p := { p with parameters, conversation := trigger.conversation.or p.conversation }
        let w := e.world.noticeAll notices
        let start := trigger.start.getD p.defaultStart
        let result :=
          if trigger.skip then p.skip fuel w start else p.play fuel w start trigger.queue
        result.map fun r => (e.put r, .ok id)

/-- Kills an instance and takes it out of the engine. -/
def killOne (e : Engine β) (id : Nat) : Engine β :=
  match e.instance? id with
  | none => e
  | some p => (e.put (p.kill e.world)).release id

/-- Kills the instances of a graph and forgets its restored records; how many were killed. -/
def killGraphNow (e : Engine β) (graph : String) : Engine β × Nat :=
  let ids := e.instancesOf graph
  let e := ids.foldl killOne e
  (e.withRegistry (e.world.registry.dropDetached graph), ids.length)

/-- Resumes an instance as its record says, if there is such an instance. -/
def resumeRecord (fuel : Nat) (e : Engine β) (id : Nat) (r : Record) (rerun : Bool) :
    Option (Engine β × List Nat) :=
  match e.instance? id with
  | none => some (e, [])
  | some p =>
    (p.resume fuel e.world r.start r.resumePoints r.parameters rerun).map fun r => (e.put r, [id])

/-- Resumes the instances of records that belong to one. -/
def resumeAttached (fuel : Nat) (rerun : Bool) (e : Engine β) :
    List Record → Option (Engine β × List Nat)
  | [] => some (e, [])
  | r :: rest =>
    match r.playback with
    | none => e.resumeAttached fuel rerun rest
    | some id => do
      let (e, ids) ← e.resumeRecord fuel id r rerun
      let (e, more) ← e.resumeAttached fuel rerun rest
      return (e, ids ++ more)

/-- Resumes the first `count` records of a graph that come from a save, each on the instance that
the graph gives it. A refusal ends it: the record that no instance could be found for is gone. -/
def resumeRestored (fuel : Nat) (rerun : Bool) (graph : String) :
    Nat → Engine β → Option (Engine β × Except EngineError (List Nat))
  | 0, e => some (e, .ok [])
  | count + 1, e =>
    match e.world.registry.detachedPaused? graph with
    | none => some (e, .ok [])
    | some r =>
      let e := e.withRegistry (e.world.registry.dropDetachedPaused graph)
      match e.spawn graph with
      | .error error => some (e, .error error)
      | .ok (e, id) => do
        let e := e.modifyInstance id fun p => ({ p with conversation := r.conversation }, [])
        let (e, ids) ← e.resumeRecord fuel id r rerun
        let (e, more) ← resumeRestored fuel rerun graph count e
        return (e, more.map (ids ++ ·))

/-- Resumes every paused run of a graph, without applying commands. -/
def resumePausedNow (fuel : Nat) (e : Engine β) (graph : String) (rerun : Bool) :
    Option (Engine β × Except EngineError (List Nat)) :=
  if !e.graphs.contains graph then some (e, .error (.unknownGraph graph))
  else do
    let attached := e.world.registry.records.filter fun r => r.graph = graph && r.isPaused
    let (e, ids) ← e.resumeAttached fuel rerun attached
    let count := (e.world.registry.records.filter (Registry.isDetachedPaused graph)).length
    let (e, more) ← resumeRestored fuel rerun graph count e
    return (e, more.map (ids ++ ·))

/-- Pauses an instance. -/
def pauseOne (e : Engine β) (id : Nat) : Engine β :=
  match e.instance? id with
  | none => e
  | some p => e.put (p.pause e.world)

/-- Skips the running ones among instances, each from the node it was started at. -/
def skipRunning (fuel : Nat) (e : Engine β) : List Nat → Option (Engine β)
  | [] => some e
  | id :: rest =>
    match e.instance? id with
    | none => e.skipRunning fuel rest
    | some p =>
      if p.isRunning then do
        let r ← p.skip fuel e.world p.start
        (e.put r).skipRunning fuel rest
      else e.skipRunning fuel rest

/-! ### Commands -/

/-- Applies a command. -/
def apply (fuel : Nat) (e : Engine β) (command : Command) : Option (Engine β) :=
  match command with
  | .start graph start queue skip => do
    match ← e.begin fuel graph { start := some start, queue, skip } with
    | (e, .ok _) => return e
    | (e, .error _) => return e.notice .cannotStart
  | .kill graph => some (e.killGraphNow graph).1
  | .pause graph => some ((e.instancesOf graph).foldl pauseOne e)
  | .resume graph rerun => do
    match ← e.resumePausedNow fuel graph rerun with
    | (e, .ok _) => return e
    | (e, .error _) => return e.notice .cannotResume
  | .skip graph => e.skipRunning fuel (e.instancesOf graph)

/-- The commands that have their turn next: what is left of a batch or, once nothing is left of it,
all that have been raised meanwhile. Nobody sees commands that have been taken up. -/
def takeUp (e : Engine β) : List Command → Engine β × List Command
  | [] => ({ e with world := { e.world with commands := [] } }, e.world.commands)
  | batch => (e, batch)

/-- Applies what is left of a batch, and batch after batch what has been raised meanwhile, first
come first served; beyond the budget the rest is dropped. -/
def flush (fuel : Nat) : Nat → List Command → Engine β → Option (Engine β)
  | 0, batch, e =>
    if batch.isEmpty && e.world.commands.isEmpty then some e
    else some ({ e with world := { e.world with commands := [] } }.notice .budgetExhausted)
  | budget + 1, batch, e =>
    match e.takeUp batch with
    | (e, []) => some e
    | (e, command :: batch) => do
      let e ← e.apply fuel command
      flush fuel budget batch e

/-- Applies the commands that have been raised, and those that are raised meanwhile, within the
budget. -/
def flushAll (fuel : Nat) (e : Engine β) : Option (Engine β) :=
  flush fuel e.world.config.commandBudget [] e

/-- What ends an operation. -/
def conclude (fuel : Nat) (e : Engine β) : Option (Engine β) := (e.flushAll fuel).map collect

/-! ### Operations -/

/-- Starts a graph. The answer is the instance. -/
def trigger (fuel : Nat) (e : Engine β) (graph : String) (trigger : Trigger) :
    Option (Engine β × Except EngineError Nat) := do
  match ← e.begin fuel graph trigger with
  | (e, .error error) => return (e, .error error)
  | (e, .ok id) => return (← e.conclude fuel, .ok id)

/-- Starts a graph at its own start. -/
def interact (fuel : Nat) (e : Engine β) (graph : String) :
    Option (Engine β × Except EngineError Nat) :=
  e.trigger fuel graph {}

/-- Starts a graph at a node. -/
def interactFrom (fuel : Nat) (e : Engine β) (graph : String) (start : Nat) (queue : Bool) :
    Option (Engine β × Except EngineError Nat) :=
  e.trigger fuel graph { start := some start, queue }

/-- Starts a graph at a node, in the skip queue. -/
def runFromIndex (fuel : Nat) (e : Engine β) (graph : String) (start : Nat) :
    Option (Engine β × Except EngineError Nat) :=
  e.interactFrom fuel graph start true

/-- Does something with an instance and what ends an operation. -/
def onInstance (fuel : Nat) (e : Engine β) (id : Nat)
    (f : Playback β → World β → Option (Playback β × World β)) :
    Option (Engine β × Except EngineError Unit) :=
  match e.instance? id with
  | none => some (e, .error .unknownInstance)
  | some p => do
    let r ← f p e.world
    return (← (e.put r).conclude fuel, .ok ())

/-- Skips an instance from a node on. -/
def skipFrom (fuel : Nat) (e : Engine β) (id start : Nat) :
    Option (Engine β × Except EngineError Unit) :=
  e.onInstance fuel id fun p w => p.skip fuel w start

/-- Skips an instance from the node it was started at. -/
def skip (fuel : Nat) (e : Engine β) (id : Nat) : Option (Engine β × Except EngineError Unit) :=
  e.onInstance fuel id fun p w => p.skip fuel w p.start

/-- Pauses an instance. -/
def pause (fuel : Nat) (e : Engine β) (id : Nat) : Option (Engine β × Except EngineError Unit) :=
  e.onInstance fuel id fun p w => some (p.pause w)

/-- Resumes an instance. -/
def resume (fuel : Nat) (e : Engine β) (id start : Nat) (points : List Nat) (parameters : String)
    (rerun : Bool) : Option (Engine β × Except EngineError Unit) :=
  e.onInstance fuel id fun p w => p.resume fuel w start points parameters rerun

/-- Resumes every paused run of a graph, those that come from a save too. The answer is the
instances. -/
def resumePaused (fuel : Nat) (e : Engine β) (graph : String) (rerun : Bool) :
    Option (Engine β × Except EngineError (List Nat)) := do
  match ← e.resumePausedNow fuel graph rerun with
  | (e, .error error) => return (e, .error error)
  | (e, .ok ids) => return (← e.conclude fuel, .ok ids)

/-- Kills an instance. -/
def kill (fuel : Nat) (e : Engine β) (id : Nat) : Option (Engine β × Except EngineError Unit) :=
  if (e.instance? id).isNone then some (e, .error .unknownInstance)
  else do return (← (e.killOne id).conclude fuel, .ok ())

/-- Kills the instances of a graph and forgets its restored records; how many were killed. -/
def killGraph (fuel : Nat) (e : Engine β) (graph : String) : Option (Engine β × Nat) := do
  let (e, count) := e.killGraphNow graph
  return (← e.conclude fuel, count)

/-- Kills everything and forgets all records and commands. -/
def killAll (e : Engine β) : Engine β :=
  let e := (e.instances.map (·.id)).foldl killOne e
  { e with world := { e.world with registry := {}, commands := [] } }

/-- Skips what a request asks for, on its instance or on one made for it. -/
def skipRequested (fuel : Nat) (e : Engine β) (request : SkipRequest) : Option (Engine β) :=
  let target : Except EngineError (Engine β × Nat) :=
    match request.playback.filter fun id => (e.instance? id).isSome with
    | some id => .ok (e, id)
    | none => e.spawn request.graph
  match target with
  | .error _ => some (e.notice .cannotSkip)
  | .ok (e, id) =>
    match e.instance? id with
    | none => some e
    | some p =>
      let p := { p with conversation := request.conversation.or p.conversation }
      (p.skip fuel e.world request.start).map e.put

/-- Skips what requests ask for, applying commands after each. -/
def skipRequests (fuel : Nat) (e : Engine β) : List SkipRequest → Option (Engine β)
  | [] => some e
  | request :: rest => do
    let e ← e.skipRequested fuel request
    let e ← e.flushAll fuel
    e.skipRequests fuel rest

/-- Skips everything in the skip queue, in the order of registration. -/
def skipAll (fuel : Nat) (e : Engine β) : Option (Engine β) := do
  let (requests, registry) := e.world.registry.takeQueue
  let e ← (e.withRegistry registry).skipRequests fuel requests
  return e.collect

/-- Resets the record of an instance and halts the instance, without telling anyone. -/
def resetRecord (e : Engine β) (id : Nat) (unqueue : Bool) : Engine β × Except EngineError Unit :=
  if (e.world.registry.record? id).isNone then (e, .error .unknownInstance)
  else
    let registry := (e.world.registry.modify id (·.reset unqueue)).purge
    let e := e.modifyInstance id fun p => (p.halt, [])
    ((e.withRegistry registry).collect, .ok ())

/-- Updates instances, applying commands after each. -/
def updateAll (fuel : Nat) (e : Engine β) : List Nat → Option (Engine β)
  | [] => some e
  | id :: rest => do
    let e ←
      match e.instance? id with
      | none => some e
      | some p => (p.update fuel e.world).map e.put
    let e ← e.flushAll fuel
    e.updateAll fuel rest

/-- Lets time pass: every instance there is at its beginning takes up what has become due. -/
def tick (fuel : Nat) (e : Engine β) (nanoseconds : Nat) : Option (Engine β) := do
  let e := { e with world := { e.world with clock := e.world.clock.advance nanoseconds } }
  let e ← e.updateAll fuel (e.instances.map (·.id))
  return e.collect

/-- Begins or ends a scene change. -/
def setScene (e : Engine β) (loading : Bool) : Engine β :=
  { e with world := { e.world with sceneLoading := loading } }

/-! ### Saving and loading -/

/-- The saved form of everything that can be resumed or skipped and does not run. -/
def save (e : Engine β) : String := e.world.registry.save

/-- Kills everything and takes over the saved records. -/
def load (e : Engine β) (data : String) : Engine β :=
  let e := e.killAll
  let (registry, notices) := Registry.load data
  (e.withRegistry registry).noticeAll notices

end Engine

/-- What a save slot holds. -/
structure SaveSlot where
  records : String := ""
  globals : List Variable := []
deriving DecidableEq

/-- Save slots by name. -/
abbrev SaveStore := Table SaveSlot

namespace Engine

variable {β : Type} [Behaviour β]

/-- The saved records and the global variables. -/
def saveSlot (e : Engine β) : SaveSlot := ⟨e.save, e.world.vars.global⟩

/-- Takes over the saved records and the global variables. -/
def loadSlot (e : Engine β) (slot : SaveSlot) : Engine β :=
  let e := e.load slot.records
  { e with world :=
    { e.world with vars := e.world.vars.restore .global slot.globals } }

end Engine

end Cutscene
