import Cutscene.Playback.Turn

/-!
# A turn, case by case

Names for what a turn looks like halfway through a function, and one equation for each way that the
function can take: `resolve_of_recalled` and `resolve_of_choice` for the ending of a node,
`finish_of_none`, `finish_of_pauseRequested` and `finish_of_following` for a node
that is done, `enter_of_skipping` and `enter_of_playing` for one that starts, `poll_of_some` for one
that goes on, `visit_of_runnable` and its like for a branch that arrives.
-/

namespace Cutscene.Turn

variable {β : Type}

/-- A node is no longer in the middle of its execution. -/
def rest (t : Turn β) (index : Nat) : Turn β :=
  { t with playback := t.playback.modifyNode index fun n => { n with running := false } }

/-- The run will go on at a node after the pause. -/
def keep (t : Turn β) (index : Nat) : Turn β :=
  { t with playback := { t.playback with resumePoints := t.playback.resumePoints ++ [index] } }

/-- A node whose output has been taken again. -/
def recalled (t : Turn β) (index : Nat) : Turn β :=
  { t with playback := t.playback.modifyNode index fun n => { n with memo := none } }

variable [Behaviour β]

/-- The endings of a node are followed. -/
def leave (t : Turn β) (index : Nat) (node : Node β) : Turn β :=
  match (t.endings index node).1.followAll index (t.endings index node).2 with
  | (t, true) => t
  | (t, false) => t.settle

/-- A behaviour with the values of its parameters. -/
def assigned (t : Turn β) (b : β) : β :=
  if t.playback.parameters.isEmpty then b else Behaviour.assign t.playback.parameters b

/-- What a call to run brings about. -/
def runOutcome (t : Turn β) (index : Nat) (running : Bool) (b : β) : Outcome β :=
  Behaviour.run (t.context index running) t.world.vars b

/-- What a call to skip brings about. -/
def skipOutcome (t : Turn β) (index : Nat) (b : β) : Outcome β :=
  Behaviour.skip (t.context index false) t.world.vars b

/-- A node after a call with an outcome. -/
def called (t : Turn β) (form : Call.Form) (index : Nat) (b : β) (o : Outcome β)
    (running : Bool) : Turn β :=
  { t with
    playback := t.playback.modifyNode index fun n =>
      { n with behaviour := some o.behaviour, running }
    world := (t.noteCall form index b).world.absorb o }

/-- The output that a skip takes because the run before it took it. -/
def recalled? (t : Turn β) (node : Node β) (b : β) : Option Nat :=
  if t.playback.skipping && 1 < Behaviour.outputs b then node.memo else none

/-- What a call to choose brings about. -/
def choice (t : Turn β) (index : Nat) (b : β) : Choice β :=
  Behaviour.choose (t.choiceContext index) t.world.vars b

/-- A node after its behaviour has chosen an output. A run remembers what was chosen. -/
def chosen (t : Turn β) (index : Nat) (node : Node β) (b : β) : Turn β :=
  let c := t.choice index b
  let memo := if !t.playback.skipping && 0 ≤ c.output then some c.output.toNat else node.memo
  { t with
    playback := t.playback.modifyNode index fun n => { n with behaviour := some c.behaviour, memo }
    world := (t.noteCall .choose index b).world.absorbChoice c }

/-! ### The ending of a node -/

theorem resolve_of_outputs_eq_zero (t : Turn β) (index : Nat) (node : Node β) {b : β}
    (h : Behaviour.outputs b = 0) : t.resolve index node b = (t, .stop) := by
  rw [resolve, if_pos h]

theorem resolve_of_recalled {t : Turn β} (index : Nat) {node : Node β} {b : β} {output : Nat}
    (h : Behaviour.outputs b ≠ 0) (hm : t.recalled? node b = some output) :
    t.resolve index node b = (t.recalled index).endingAt node output := by
  unfold recalled? at hm
  rw [resolve, if_neg h]
  simp only [hm]
  rfl

theorem resolve_of_choice {t : Turn β} (index : Nat) {node : Node β} {b : β}
    (h : Behaviour.outputs b ≠ 0) (hm : t.recalled? node b = none) :
    t.resolve index node b =
      (t.chosen index node b).endingAt node (t.choice index b).output := by
  unfold recalled? at hm
  rw [resolve, if_neg h]
  simp only [hm]
  rfl

/-! ### A node that is done -/

theorem finish_of_none {t : Turn β} {index : Nat} (h : t.playback.nodes[index]? = none) :
    t.finish index = t.settle := by
  simp only [finish, h]

theorem finish_of_pauseRequested {t : Turn β} {index : Nat} {node : Node β}
    (h : t.playback.nodes[index]? = some node) (hp : t.playback.pauseRequested = true) :
    t.finish index =
      if t.ready.isEmpty && t.playback.pending.isEmpty then ((t.rest index).keep index).endPause
      else (t.rest index).keep index := by
  simp only [finish, h]
  exact if_pos hp

theorem finish_of_following {t : Turn β} {index : Nat} {node : Node β}
    (h : t.playback.nodes[index]? = some node) (hp : t.playback.pauseRequested = false) :
    t.finish index = (t.rest index).leave index node := by
  simp only [finish, h]
  exact if_neg (by rw [Bool.not_eq_true]; exact hp)

/-! ### A node that starts or goes on -/

theorem enter_of_skipping {t : Turn β} (h : t.playback.skipping = true) (index : Nat) (b : β) :
    t.enter index b =
      (t.called .skip index (t.assigned b) (t.skipOutcome index (t.assigned b)) false).finish
        index := by
  simp only [enter, h, if_true]
  rfl

theorem enter_of_playing {t : Turn β} (h : t.playback.skipping = false) (index : Nat) (b : β) :
    t.enter index b =
      let o := t.runOutcome index false (t.assigned b)
      let t := t.called .run index (t.assigned b) o o.running
      if o.running && o.wait != 0 then t.suspend index o.wait else t.finish index := by
  simp only [enter, h, Bool.false_eq_true, if_false]
  rfl

theorem poll_of_none {t : Turn β} {index : Nat} (h : t.playback.nodes[index]? = none) :
    t.poll index = t.settle := by
  simp only [poll, h]

theorem poll_of_behaviour_none {t : Turn β} {index : Nat} {node : Node β}
    (h : t.playback.nodes[index]? = some node) (hb : node.behaviour = none) :
    t.poll index = t.finish index := by
  simp only [poll, h, hb]

theorem poll_of_some {t : Turn β} {index : Nat} {node : Node β} {b : β}
    (h : t.playback.nodes[index]? = some node) (hb : node.behaviour = some b) :
    t.poll index =
      let o := t.runOutcome index node.running b
      let t := t.called (if node.running then .poll else .run) index b o o.running
      if o.running then t.suspend index o.wait else t.finish index := by
  simp only [poll, h, hb]
  rfl

/-! ### A branch that arrives -/

theorem visit_of_killed {t : Turn β} {index : Nat} (h : t.hop.2 = false) :
    t.visit index = t.hop.1 := by
  rcases ht : t.hop with ⟨u, _ | _⟩
  · simp only [visit, ht]
  · simp [ht] at h

theorem visit_of_none {t : Turn β} {index : Nat} (h : t.hop.2 = true)
    (hn : t.hop.1.playback.nodes[index]? = none) : t.visit index = t.hop.1.settle := by
  rcases ht : t.hop with ⟨u, _ | _⟩ <;> rw [ht] at h hn
  · simp at h
  · simp only [visit, ht, hn]

theorem visit_of_runnable {t : Turn β} {index : Nat} {node : Node β} {b : β} (h : t.hop.2 = true)
    (hn : t.hop.1.playback.nodes[index]? = some node) (he : node.enabled = true)
    (hb : node.behaviour = some b) : t.visit index = t.hop.1.enter index b := by
  rcases ht : t.hop with ⟨u, _ | _⟩ <;> rw [ht] at h hn
  · simp at h
  · simp only [visit, ht, hn, he, hb]

theorem visit_of_not_runnable {t : Turn β} {index : Nat} {node : Node β} (h : t.hop.2 = true)
    (hn : t.hop.1.playback.nodes[index]? = some node)
    (hr : node.enabled = false ∨ node.behaviour = none) :
    t.visit index =
      t.hop.1.push { index := index + 1, step := .visit, origin := some index } := by
  rcases ht : t.hop with ⟨u, _ | _⟩ <;> rw [ht] at h hn
  · simp at h
  · simp only [visit, ht, hn]
    -- The program checks whether the node is enabled before it looks for a behaviour.
    rcases hr with hr | hr
    · rw [hr]
    · rw [hr]
      cases node.enabled <;> rfl

end Cutscene.Turn
