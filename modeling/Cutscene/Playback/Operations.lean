import Cutscene.Playback.Turn

/-!
# What a host does with a playback

Playing, skipping, pausing, resuming and updating. Operations that work off branches take the
number of branches they may take up, and have no answer if that is not enough.
-/

namespace Cutscene.Playback

variable {β : Type} [Behaviour β]

/-- Starts at a node. A run that is under way is killed first. -/
def play (fuel : Nat) (p : Playback β) (w : World β) (start : Nat) (queue : Bool) :
    Option (Playback β × World β) :=
  let (p, w) := if p.isActive then p.kill w else (p, w)
  if p.nodes.length ≤ start then some (p.kill w)
  else
    let p := { p.clearBranches.forgetChoices with
      resumePoints := [], pauseRequested := false, start, phase := .running }
    let w := { w with registry :=
      w.registry.enter p.id p.graph start (queue && p.isSkippable) p.conversation }
    let w := p.emit (.began start) w
    if 0 < p.settings.startDelay && start = 0 then
      let b : Branch := { index := 0, step := .visit, wake := p.after p.settings.startDelay w }
      some ({ p with pending := p.pending ++ [b] }, w)
    else
      Turn.run fuel { playback := p, world := w, ready := [{ index := start, step := .visit }] }

/-- Brings every node from the given one on to its final state within this call. -/
def skip (fuel : Nat) (p : Playback β) (w : World β) (start : Nat) :
    Option (Playback β × World β) :=
  if p.nodes.length ≤ start then some (p.kill w)
  else
    let wasActive := p.isActive
    let p := p.clearBranches
    -- What earlier runs chose must not lead a skip that is a run of its own.
    let p := if wasActive then p else p.forgetChoices
    let p := { p with
      resumePoints := [], pauseRequested := false, skipping := true, hops := 0, start,
      phase := .running }
    let w := { w with registry := w.registry.enter p.id p.graph start false p.conversation }
    let w := if wasActive then w else p.emit (.began start) w
    let w := p.emit (.skipped start) w
    Turn.run fuel { playback := p, world := w, ready := [{ index := start, step := .visit }] }

/-- The node at which a waiting branch is resumed that has not reached its own node yet: the one it
comes from. A node whose outputs are all taken would take them all again, so a branch that comes
from one goes on under the pause instead. -/
def resumePoint? (p : Playback β) (b : Branch) : Option Nat :=
  match b.step, b.origin with
  | .visit, some origin =>
    match p.nodes[origin]? with
    | some node => if node.fansOut then none else some origin
    | none => some origin
  | _, _ => none

/-- Asks for a pause, which takes effect once every node under way has finished. -/
def pause (p : Playback β) (w : World β) : Playback β × World β :=
  if p.phase ≠ .running || p.skipping then (p, w)
  else
    let p := { p with
      pauseRequested := true
      resumePoints := p.pending.filterMap p.resumePoint?
      pending := p.pending.filter fun b => (p.resumePoint? b).isNone }
    if p.pending.isEmpty then
      let t : Turn β := { playback := p, world := w }
      let t := t.endPause
      (t.playback, t.world)
    else (p, w)

/-- The resume points that are nodes; the others leave a notice. -/
def validPoints (p : Playback β) (points : List Nat) : List Nat × List Notice :=
  (points.filter (· < p.nodes.length),
    (points.filter (p.nodes.length ≤ ·)).map fun _ => .resumePointOutOfRange)

/-- Goes on with a paused run: after the given nodes, or with them once more. Without any the run
starts again. -/
def resume (fuel : Nat) (p : Playback β) (w : World β) (start : Nat) (points : List Nat)
    (parameters : String) (rerun : Bool) : Option (Playback β × World β) :=
  if points.isEmpty then p.play fuel w start true
  else
    let (p, w) :=
      if p.phase = .running then p.kill (w.notice .resumedWhileRunning) else (p, w)
    let p := { p.clearBranches with resumePoints := [], pauseRequested := false, start }
    let (parameters, notices) :=
      if parameters.isEmpty then (p.parameters, []) else p.parameters.restore parameters
    let p := { p with parameters, phase := .running }
    let w := w.noticeAll notices
    let w := { w with registry :=
      w.registry.enter p.id p.graph start p.isSkippable p.conversation }
    let w := p.emit .resumed w
    let (points, notices) := p.validPoints points
    let w := w.noticeAll notices
    let step := if rerun then Step.visit else .resolve
    let t : Turn β := { playback := p, world := w, ready := points.map ({ index := ·, step }) }
    if points.isEmpty then
      let t := t.endRun
      some (t.playback, t.world)
    else t.run fuel

/-- Takes up the branches whose time has come. -/
def update (fuel : Nat) (p : Playback β) (w : World β) : Option (Playback β × World β) :=
  if p.phase ≠ .running || p.pending.isEmpty then some (p, w)
  else if !w.registry.isLive p.id then
    some ({ p.clearBranches with phase := .finished }, w.notice .unregistered)
  else
    let (due, waiting) := p.pending.partition (·.wake.isDue w.clock)
    if due.isEmpty then some ({ p with pending := waiting }, w)
    else if w.sceneLoading then
      if p.settings.survivesSceneChange && !p.isSkippable then
        some ({ p with pending := waiting }.kill w)
      else some ({ p with pending := waiting ++ due }, w)
    else Turn.run fuel { playback := { p with pending := waiting }, world := w, ready := due }

end Cutscene.Playback
