import Cutscene.Playback.Basic

/-!
# Turns

A turn works off the branches that are ready, first come first served. `Turn.advance` takes up one
branch, which may put further ones at the end of the row; `Turn.run` goes on until none is left or
the playback no longer runs. Nothing bounds a turn in general: branches may chase each other
through nodes that finish at once. `Turn.run` therefore takes the number of branches it may take
up, and has no answer if that is not enough.
-/

namespace Cutscene

/-- A playback at work. -/
structure Turn (β : Type) where
  playback : Playback β
  world : World β
  /-- The branches to take up, first one first. -/
  ready : List Branch := []

namespace Turn

variable {β : Type} [Behaviour β]

/-- Takes up another branch in this turn. -/
def push (t : Turn β) (b : Branch) : Turn β := { t with ready := t.ready ++ [b] }

/-- Lets a branch wait. -/
def defer (t : Turn β) (b : Branch) : Turn β :=
  { t with playback := { t.playback with pending := t.playback.pending ++ [b] } }

/-- What the behaviour of a node sees. -/
def context (t : Turn β) (index : Nat) (running : Bool) : Context where
  playback := t.playback.id
  graph := t.playback.graph
  index := index
  skipping := t.playback.skipping
  running := running
  clock := t.world.clock
  isGraphRunning := t.world.registry.isGraphRunning
  commands := t.world.commands

/-- What the behaviour of a node sees when it chooses an output: all but the commands. -/
def choiceContext (t : Turn β) (index : Nat) : Context :=
  { t.context index false with commands := [] }

/-- Adds a call to the journal. -/
def noteCall (t : Turn β) (form : Call.Form) (index : Nat) (b : β) : Turn β :=
  { t with world := t.world.note <|
      .call ⟨form, t.playback.id, t.playback.graph, index, t.playback.skipping, b⟩ }

/-! ### The end of a run -/

/-- The run is over by itself. -/
def endRun (t : Turn β) : Turn β :=
  let p := { t.playback with phase := .finished, skipping := false, pauseRequested := false,
                             pending := [] }
  let w := { t.world with registry := t.world.registry.drop p.id }
  let w := p.emit (.ended false) w
  let w := match p.conversation with
    | some conversation => p.emit (.conversationDue conversation) w
    | none => w
  { t with playback := p, world := w }

/-- A requested pause takes effect. -/
def endPause (t : Turn β) : Turn β :=
  let p := { t.playback with phase := .paused, skipping := false, pauseRequested := false }
  let w := { t.world with
    registry := t.world.registry.pause p.id p.resumePoints p.parameters.snapshot }
  { t with playback := p, world := p.emit (.paused p.resumePoints) w }

/-- Ends the run, or pauses it, once no branch is left. -/
def settle (t : Turn β) : Turn β :=
  if t.playback.phase ≠ .running || !t.ready.isEmpty || !t.playback.pending.isEmpty then t
  else if t.playback.pauseRequested && !t.playback.resumePoints.isEmpty then t.endPause
  else t.endRun

/-! ### Endings -/

/-- The branch that an ending leads to, if it leads to one, and what else it brings about. -/
def follow (t : Turn β) (index : Nat) (ending : Ending) : Turn β × Option Branch :=
  let p := t.playback
  match ending with
  | .stop => (t, none)
  | .next => (t, some { index := index + 1, step := .visit, origin := some index })
  | .goto target =>
    -- A node that leads to itself lets a tick pass between its runs.
    let wake := if target = index && !p.skipping then .nextTick false else .now
    (t, some { index := target, step := .visit, origin := some index, wake })
  | .start graph =>
    if graph = p.graph then
      let wake :=
        if 0 < p.settings.startDelay && !p.skipping then p.after p.settings.startDelay t.world
        else .now
      (t, some { index := 0, step := .visit, origin := some index, wake })
    else ({ t with world := t.world.raise (.start graph 0 true p.skipping) }, none)

/-- Follows endings one after the other; whether any led to a branch. -/
def followAll (t : Turn β) (index : Nat) : List Ending → Turn β × Bool
  | [] => (t, false)
  | ending :: rest =>
    match t.follow index ending with
    | (t, none) => t.followAll index rest
    | (t, some b) =>
      let t := if b.wake = .now then t.push b else t.defer b
      ((t.followAll index rest).1, true)

/-- The ending that an output stands for. -/
def endingAt (t : Turn β) (node : Node β) (output : Int) : Turn β × Ending :=
  match if 0 ≤ output then node.endings[output.toNat]? else none with
  | some ending => (t, ending)
  | none => ({ t with world := t.world.notice .outputOutOfRange }, .stop)

/-- The one ending that a finished node takes. A skip takes the outputs that were taken before it,
where there was a choice. -/
def resolve (t : Turn β) (index : Nat) (node : Node β) (b : β) : Turn β × Ending :=
  let p := t.playback
  if Behaviour.outputs b = 0 then (t, .stop)
  else
    let memo := if p.skipping && 1 < Behaviour.outputs b then node.memo else none
    match memo with
    | some output =>
      let p := p.modifyNode index fun n => { n with memo := none }
      { t with playback := p }.endingAt node output
    | none =>
      let t := t.noteCall .choose index b
      let c := Behaviour.choose (t.choiceContext index) t.world.vars b
      let memo := if !p.skipping && 0 ≤ c.output then some c.output.toNat else node.memo
      let p := p.modifyNode index fun n => { n with behaviour := some c.behaviour, memo }
      { t with playback := p, world := t.world.absorbChoice c }.endingAt node c.output

/-- The endings that a finished node takes. -/
def endings (t : Turn β) (index : Nat) (node : Node β) : Turn β × List Ending :=
  match node.behaviour with
  | none => (t, [.stop])
  | some b =>
    if Behaviour.fansOut b && 0 < Behaviour.outputs b then
      (t, node.endings.take (Behaviour.outputs b))
    else
      let (t, ending) := t.resolve index node b
      (t, [ending])

/-- A node is done. While a pause is requested its place is kept, otherwise its endings are
followed. -/
def finish (t : Turn β) (index : Nat) : Turn β :=
  match t.playback.nodes[index]? with
  | none => t.settle
  | some node =>
    let p := t.playback.modifyNode index fun n => { n with running := false }
    if p.pauseRequested then
      let t := { t with playback := { p with resumePoints := p.resumePoints ++ [index] } }
      if t.ready.isEmpty && t.playback.pending.isEmpty then t.endPause else t
    else
      let (t, endings) := { t with playback := p }.endings index node
      match t.followAll index endings with
      | (t, true) => t
      | (t, false) => t.settle

/-- A node wants to be called again: after some seconds, or at the next tick. -/
def suspend (t : Turn β) (index : Nat) (wait : Float32) : Turn β :=
  let wake :=
    if 0 < wait then t.playback.after wait t.world
    else .nextTick (!t.playback.inRealtime t.world)
  t.defer { index, step := .poll, origin := some index, wake }

/-! ### Taking up a branch -/

/-- Counts a hop of a skip; beyond the limit the playback is killed. -/
def hop (t : Turn β) : Turn β × Bool :=
  let p := t.playback
  if p.skipping then
    let p := { p with hops := p.hops + 1 }
    let limit := p.nodes.length * max t.world.config.hopFactor 1 % UInt64.size
    if limit < p.hops then
      let (p, w) := p.kill (t.world.notice .hopLimitExceeded)
      ({ t with playback := p, world := w }, false)
    else ({ t with playback := p }, true)
  else (t, true)

/-- Runs a node from the beginning, or skips it. -/
def enter (t : Turn β) (index : Nat) (b : β) : Turn β :=
  let p := t.playback
  let b := if p.parameters.isEmpty then b else Behaviour.assign p.parameters b
  if p.skipping then
    let t := t.noteCall .skip index b
    let o := Behaviour.skip (t.context index false) t.world.vars b
    let p := p.modifyNode index fun n => { n with behaviour := some o.behaviour, running := false }
    { t with playback := p, world := t.world.absorb o }.finish index
  else
    let t := t.noteCall .run index b
    let o := Behaviour.run (t.context index false) t.world.vars b
    let p := p.modifyNode index fun n =>
      { n with behaviour := some o.behaviour, running := o.running }
    let t := { t with playback := p, world := t.world.absorb o }
    if o.running && o.wait != 0 then t.suspend index o.wait else t.finish index

/-- A branch arrives at a node. One that cannot run is passed over. -/
def visit (t : Turn β) (index : Nat) : Turn β :=
  match t.hop with
  | (t, false) => t
  | (t, true) =>
    match t.playback.nodes[index]? with
    | none => t.settle
    | some node =>
      match node.enabled, node.behaviour with
      | true, some b => t.enter index b
      | _, _ => t.push { index := index + 1, step := .visit, origin := some index }

/-- A node goes on. -/
def poll (t : Turn β) (index : Nat) : Turn β :=
  match t.playback.nodes[index]? with
  | none => t.settle
  | some node =>
    match node.behaviour with
    | none => t.finish index
    | some b =>
      let t := t.noteCall (if node.running then .poll else .run) index b
      let o := Behaviour.run (t.context index node.running) t.world.vars b
      let p := t.playback.modifyNode index fun n =>
        { n with behaviour := some o.behaviour, running := o.running }
      let t := { t with playback := p, world := t.world.absorb o }
      if o.running then t.suspend index o.wait else t.finish index

/-- Takes up a branch. -/
def advance (t : Turn β) (b : Branch) : Turn β :=
  match b.step with
  | .visit => t.visit b.index
  | .poll => t.poll b.index
  | .resolve => t.finish b.index

/-- Takes up branches until none is ready or the playback no longer runs; at most `fuel` of
them. -/
def run : Nat → Turn β → Option (Playback β × World β)
  | 0, t =>
    if t.ready.isEmpty || t.playback.phase ≠ .running then some (t.playback, t.world) else none
  | fuel + 1, t =>
    match t.ready with
    | [] => some (t.playback, t.world)
    | b :: rest =>
      if t.playback.phase = .running then run fuel ({ t with ready := rest }.advance b)
      else some (t.playback, t.world)

end Turn

end Cutscene
