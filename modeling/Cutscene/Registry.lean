import Cutscene.Record

/-!
# The registry

The records of all playbacks that run or can be skipped or resumed, in the order in which they
were registered. `Registry.save` joins the saved records with `|`; `Registry.load` makes a registry
of any text.
-/

namespace Cutscene

/-- The records in order of registration. -/
structure Registry where
  records : List Record := []
deriving DecidableEq, Repr

namespace Registry

/-- The record of a playback. -/
def record? (reg : Registry) (playback : Nat) : Option Record :=
  reg.records.find? (·.playback = some playback)

/-- Changes the first record of a playback. -/
def modifyFirst (playback : Nat) (f : Record → Record) : List Record → List Record
  | [] => []
  | r :: rest =>
    if r.playback = some playback then f r :: rest else r :: modifyFirst playback f rest

/-- Changes the record of a playback. -/
def modify (reg : Registry) (playback : Nat) (f : Record → Record) : Registry :=
  ⟨modifyFirst playback f reg.records⟩

/-- Registers a started playback; a record it already has is used again. -/
def enter (reg : Registry) (playback : Nat) (graph : String) (start : Nat) (queue : Bool)
    (conversation : Option String) : Registry :=
  let entered (r : Record) : Record :=
    { r with running := true, queued := queue, start, resumePoints := [], parameters := "",
             conversation }
  if (reg.record? playback).isSome then reg.modify playback entered
  else ⟨reg.records ++ [entered { graph, playback := some playback }]⟩

/-- Notes that a playback is paused, and where it goes on. -/
def pause (reg : Registry) (playback : Nat) (resumePoints : List Nat) (parameters : String) :
    Registry :=
  reg.modify playback fun r => { r with running := false, resumePoints, parameters }

/-- Drops the record of a playback that is over. -/
def drop (reg : Registry) (playback : Nat) : Registry :=
  ⟨reg.records.filter (·.playback ≠ some playback)⟩

/-- The playback is registered as running. -/
def isLive (reg : Registry) (playback : Nat) : Bool :=
  match reg.record? playback with
  | some r => r.running
  | none => false

/-- Some playback of the graph is registered as running. -/
def isGraphRunning (reg : Registry) (graph : String) : Bool :=
  reg.records.any fun r => r.graph = graph && r.running

/-- The playback waits in the skip queue. -/
def isQueued (reg : Registry) (playback : Nat) : Bool :=
  match reg.record? playback with
  | some r => r.queued
  | none => false

/-- Drops the records that are not necessary. -/
def purge (reg : Registry) : Registry := ⟨reg.records.filter (·.isNecessary)⟩

/-- Empties the skip queue: what is to be skipped, in order, and the registry without it. -/
def takeQueue (reg : Registry) : List SkipRequest × Registry :=
  (reg.records.filterMap (·.skipRequest?),
    purge ⟨reg.records.map fun r => { r with queued := false }⟩)

/-- A paused record of a graph that comes from a save. -/
def isDetachedPaused (graph : String) (r : Record) : Bool :=
  r.playback.isNone && r.graph = graph && r.isPaused

/-- The first paused record of a graph that comes from a save. -/
def detachedPaused? (reg : Registry) (graph : String) : Option Record :=
  reg.records.find? (isDetachedPaused graph)

/-- Drops the first paused record of a graph that comes from a save. -/
def dropDetachedPaused (reg : Registry) (graph : String) : Registry :=
  ⟨reg.records.eraseP (isDetachedPaused graph)⟩

/-- Drops all records of a graph that come from a save. -/
def dropDetached (reg : Registry) (graph : String) : Registry :=
  ⟨reg.records.filter fun r => r.playback.isSome || r.graph ≠ graph⟩

/-! ### Saving and loading -/

/-- The saved form of every record that has one. -/
def save (reg : Registry) : String := "|".intercalate (reg.records.filterMap (·.save?))

/-- A loaded record as the registry takes it, if it does: nothing runs after a load, and what ran
when it was saved is only there to be skipped. -/
def settle (r : Record) : Option Record :=
  if !r.running || r.queued then
    let r := { r with running := false }
    if r.isNecessary then some r else none
  else none

/-- Makes a registry of a text, with what there is to say about its records. -/
def load (data : String) : Registry × List Notice :=
  let chunks := (Text.cut '|' data.toList).filter fun cs => !(Text.trimChars cs).isEmpty
  let loaded := chunks.map Record.load
  (⟨(loaded.filterMap (·.1)).filterMap settle⟩, loaded.flatMap (·.2))

end Registry

end Cutscene
