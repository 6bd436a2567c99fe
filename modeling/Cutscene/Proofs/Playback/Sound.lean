import Cutscene.Proofs.Playback.Stage

/-!
# No turn leaves a playback stalled or half cleared

`Playback.Sound` says how a playback stands between two calls: a run has branches that wait, and
what does not run has nothing left of a run. During a turn the branches that are ready count as
well, which makes `Turn.Sound`; while a branch is being worked off the node that it is at may be
without one, which makes `Turn.Working`. Every way to work off a branch leads from the latter back
to the former (`sound_advance`), so that a turn ends with a sound playback (`sound_run`).
-/

namespace Cutscene

variable {β : Type}

namespace Playback

/-- A node is in the middle of its execution. -/
def isRunningAt (p : Playback β) (index : Nat) : Bool := p.nodes[index]?.any (·.running)

/-- Some branch goes on with a node. -/
def IsPolled (branches : List Branch) (index : Nat) : Prop :=
  ∃ b ∈ branches, b.step = .poll ∧ b.index = index

/-- How a playback stands between two calls. -/
structure Sound (p : Playback β) : Prop where
  /-- A run is not stalled. -/
  waits : p.phase = .running → p.pending ≠ []
  /-- Nothing is left of a run that is over, paused or halted. -/
  rests : p.phase ≠ .running →
    p.pending = [] ∧ p.pauseRequested = false ∧ ∀ n ∈ p.nodes, n.running = false
  notSkipping : p.skipping = false
  resumable : p.phase = .paused → p.resumePoints ≠ []
  /-- A node in the middle of its execution will go on. -/
  polled : ∀ index, p.isRunningAt index → IsPolled p.pending index

theorem isRunningAt_of_mem {p : Playback β} {n : Node β} (h : n ∈ p.nodes)
    (hn : n.running = true) : ∃ index, p.isRunningAt index := by
  obtain ⟨index, hi, rfl⟩ := List.mem_iff_getElem.mp h
  exact ⟨index, by simp [isRunningAt, hi, hn]⟩

theorem isRunningAt_modifyNode (p : Playback β) (index : Nat) (f : Node β → Node β) (i : Nat) :
    (p.modifyNode index f).isRunningAt i =
      if i = index then p.nodes[index]?.any fun n => (f n).running else p.isRunningAt i := by
  unfold isRunningAt modifyNode
  rw [List.getElem?_modify]
  split_ifs with h h' h'
  · subst h
    cases p.nodes[index]? <;> rfl
  · exact absurd h.symm h'
  · exact absurd h'.symm h
  · cases p.nodes[i]? <;> rfl

theorem IsPolled.mono {branches branches' : List Branch} {index : Nat} (h : IsPolled branches index)
    (hb : ∀ b ∈ branches, b ∈ branches') : IsPolled branches' index := by
  obtain ⟨b, hmem, hstep⟩ := h
  exact ⟨b, hb b hmem, hstep⟩

/-- A playback at rest is sound as soon as none of its nodes runs. -/
theorem Sound.of_rest {p : Playback β} (h : p.phase ≠ .running) (hpending : p.pending = [])
    (hpause : p.pauseRequested = false) (hskip : p.skipping = false)
    (hpoints : p.phase = .paused → p.resumePoints ≠ [])
    (hnodes : ∀ index, p.isRunningAt index = false) : p.Sound where
  waits hrun := absurd hrun h
  rests _ := by
    refine ⟨hpending, hpause, ?_⟩
    intro n hn
    by_contra hrun
    have hrun : n.running = true := by simpa using hrun
    obtain ⟨index, hi⟩ := isRunningAt_of_mem hn hrun
    simp [hnodes index] at hi
  notSkipping := hskip
  resumable := hpoints
  polled index hi := by simp [hnodes index] at hi

theorem isRunningAt_clearBranches (p : Playback β) (index : Nat) :
    p.clearBranches.isRunningAt index = false := by
  unfold isRunningAt clearBranches
  rw [List.getElem?_map]
  cases p.nodes[index]? <;> rfl

theorem sound_kill (p : Playback β) (w : World β) : (p.kill w).1.Sound :=
  .of_rest (by simp [kill]) rfl rfl rfl (by simp [kill]) p.isRunningAt_clearBranches

end Playback

namespace Turn

open Playback

/-- How a turn stands between two branches. -/
structure Sound (t : Turn β) : Prop where
  /-- What no longer runs has been put in order. -/
  stopped : t.playback.phase ≠ .running → t.playback.Sound
  waits : t.playback.phase = .running → t.ready ≠ [] ∨ t.playback.pending ≠ []
  /-- A skip only arrives at nodes; it neither waits nor pauses. -/
  skips : t.playback.phase = .running → t.playback.skipping = true →
    t.playback.pending = [] ∧ t.playback.pauseRequested = false ∧ ∀ b ∈ t.ready, b.step = .visit
  polled : t.playback.phase = .running → ∀ index, t.playback.isRunningAt index →
    IsPolled (t.ready ++ t.playback.pending) index

/-- A turn in the middle of a branch. Nothing is known of the nodes in `busy`. -/
structure Working (t : Turn β) (busy : List Nat) : Prop where
  running : t.playback.phase = .running
  skips : t.playback.skipping = true →
    t.playback.pending = [] ∧ t.playback.pauseRequested = false ∧ ∀ b ∈ t.ready, b.step = .visit
  polled : ∀ index, t.playback.isRunningAt index →
    index ∈ busy ∨ IsPolled (t.ready ++ t.playback.pending) index

theorem Working.sound {t : Turn β} (h : t.Working [])
    (hw : t.ready ≠ [] ∨ t.playback.pending ≠ []) : t.Sound where
  stopped hrun := absurd h.running hrun
  waits _ := hw
  skips _ := h.skips
  polled _ index hi := (h.polled index hi).resolve_left List.not_mem_nil

theorem Working.busy {t : Turn β} (h : t.Working []) (index : Nat) : t.Working [index] where
  running := h.running
  skips := h.skips
  polled i hi := Or.inr ((h.polled i hi).resolve_left List.not_mem_nil)

/-- A turn that has no branch left is over: the playback is sound. -/
theorem Sound.playback {t : Turn β} (h : t.Sound)
    (hr : t.ready = [] ∨ t.playback.phase ≠ .running) : t.playback.Sound := by
  by_cases hp : t.playback.phase = .running
  · have hready : t.ready = [] := hr.resolve_right (not_not_intro hp)
    have hpending : t.playback.pending ≠ [] := (h.waits hp).resolve_left (not_not_intro hready)
    refine ⟨fun _ => hpending, fun hrun => absurd hp hrun, ?_, fun hpaused => ?_, ?_⟩
    · -- A skip has nothing that waits, so it would not have come to its end here.
      by_contra hs
      have hnone := (h.skips hp (by simpa using hs)).1
      exact hpending hnone
    · simp [hp] at hpaused
    · intro index hi
      have hpolled := h.polled hp index hi
      rw [hready, List.nil_append] at hpolled
      exact hpolled
  · exact h.stopped hp

/-- A branch that is taken up leaves the others; only the node that it goes on with may be without
one. -/
theorem Sound.working {t : Turn β} (h : t.Sound) (hp : t.playback.phase = .running) {b : Branch}
    {rest : List Branch} (hr : t.ready = b :: rest) :
    ({ t with ready := rest } : Turn β).Working (if b.step = .poll then [b.index] else []) where
  running := hp
  skips hs := by
    obtain ⟨hpending, hpause, hvisit⟩ := h.skips hp hs
    exact ⟨hpending, hpause, fun c hc => hvisit c (hr ▸ List.mem_cons_of_mem b hc)⟩
  polled index hi := by
    obtain ⟨c, hc, hstep, hindex⟩ := h.polled hp index hi
    rw [hr, List.cons_append, List.mem_cons] at hc
    rcases hc with rfl | hc
    · -- The branch that is taken up was the one to go on with the node.
      refine Or.inl ?_
      rw [if_pos hstep, hindex]
      exact List.mem_singleton.mpr rfl
    · exact Or.inr ⟨c, hc, hstep, hindex⟩

/-- The same branches, and no node runs that did not run before. -/
structure SameBranches (t u : Turn β) : Prop where
  calm : t.Calm u
  ready : u.ready = t.ready
  pending : u.playback.pending = t.playback.pending
  isRunningAt : ∀ index, u.playback.isRunningAt index = t.playback.isRunningAt index

theorem SameBranches.refl (t : Turn β) : t.SameBranches t := ⟨.refl t, rfl, rfl, fun _ => rfl⟩

theorem SameBranches.trans {t u v : Turn β} (h : t.SameBranches u) (h' : u.SameBranches v) :
    t.SameBranches v where
  calm := h.calm.trans h'.calm
  ready := h'.ready.trans h.ready
  pending := h'.pending.trans h.pending
  isRunningAt index := (h'.isRunningAt index).trans (h.isRunningAt index)

theorem SameBranches.working {t u : Turn β} (h : t.SameBranches u) {busy : List Nat}
    (ht : t.Working busy) : u.Working busy where
  running := h.calm.phase.trans ht.running
  skips := by
    rw [h.calm.skipping, h.calm.pauseRequested, h.pending, h.ready]
    exact ht.skips
  polled index hi := by
    rw [h.isRunningAt] at hi
    rw [h.ready, h.pending]
    exact ht.polled index hi

/-- A change of a node that leaves it running or not leaves the branches as good as they were. -/
theorem SameBranches.of_modifyNode {t u : Turn β} {index : Nat} {f : Node β → Node β}
    (hc : t.Calm u) (hp : u.playback = t.playback.modifyNode index f) (hr : u.ready = t.ready)
    (hf : ∀ n, (f n).running = n.running) : t.SameBranches u := by
  refine ⟨hc, hr, by rw [hp]; rfl, fun i => ?_⟩
  rw [hp, isRunningAt_modifyNode]
  split_ifs with h
  · subst h
    simp only [hf]
    rfl
  · rfl

theorem sameBranches_endingAt (t : Turn β) (node : Node β) (output : Int) :
    t.SameBranches (t.endingAt node output).1 := by
  refine ⟨t.calm_endingAt node output, ?_, ?_, fun i => ?_⟩
  all_goals
    unfold endingAt
    split <;> rfl

/-- The node that is worked off stops, so every node that runs has a branch. -/
theorem Working.rest {t : Turn β} {index : Nat} (h : t.Working [index]) :
    (t.rest index).Working [] where
  running := h.running
  skips := h.skips
  polled i hi := by
    have hmod := isRunningAt_modifyNode t.playback index (fun n => { n with running := false }) i
    rw [Turn.rest, hmod] at hi
    split_ifs at hi with hne
    · -- The node itself does not run any more.
      cases t.playback.nodes[index]? <;> simp at hi
    · rcases h.polled i hi with hbusy | hpolled
      · exact absurd (List.mem_singleton.mp hbusy) hne
      · exact Or.inr hpolled

/-- A node that is out of range does not run. -/
theorem Working.of_getElem?_eq_none {t : Turn β} {index : Nat} (h : t.Working [index])
    (hn : t.playback.nodes[index]? = none) : t.Working [] where
  running := h.running
  skips := h.skips
  polled i hi := by
    rcases h.polled i hi with hbusy | hpolled
    · obtain rfl := List.mem_singleton.mp hbusy
      simp [isRunningAt, hn] at hi
    · exact Or.inr hpolled

theorem Working.called {t : Turn β} {index : Nat} (h : t.Working [index]) (form : Call.Form)
    (b : β) (o : Outcome β) (running : Bool) :
    (t.called form index b o running).Working [index] where
  running := h.running
  skips := h.skips
  polled i hi := by
    have hmod := isRunningAt_modifyNode t.playback index
      (fun n => { n with behaviour := some o.behaviour, running }) i
    rw [Turn.called, hmod] at hi
    split_ifs at hi with hne
    · -- The call may have left the node running, but it is busy anyway.
      exact Or.inl (List.mem_singleton.mpr hne)
    · exact h.polled i hi

/-- The node that is worked off gets a branch that will go on with it. -/
theorem Working.suspend {t : Turn β} {index : Nat} (h : t.Working [index])
    (hs : t.playback.skipping = false) (wait : Float32) : (t.suspend index wait).Sound where
  stopped hrun := absurd h.running hrun
  waits _ := Or.inr (by simp [Turn.suspend, defer])
  skips _ hskip := by
    have hfalse : t.playback.skipping = true := hskip
    simp [hs] at hfalse
  polled _ i hi := by
    simp only [Turn.suspend, defer, ← List.append_assoc]
    rcases h.polled i hi with hbusy | hpolled
    · -- The new branch is the one that goes on with the node.
      obtain rfl := List.mem_singleton.mp hbusy
      exact ⟨_, List.mem_append_right _ (List.mem_singleton.mpr rfl), rfl, rfl⟩
    · exact hpolled.mono fun b hb => List.mem_append_left _ hb

/-! ### Following endings -/

/-- An ending leads to a node, and while skipping it does so at once. -/
theorem follow_branch {t u : Turn β} {index : Nat} {ending : Ending} {b : Branch}
    (h : t.follow index ending = (u, some b)) :
    b.step = .visit ∧ (t.playback.skipping = true → b.wake = .now) := by
  cases ending with
  | stop => simp [follow] at h
  | next =>
    simp only [follow, Prod.mk.injEq, Option.some.injEq] at h
    rw [← h.2]
    exact ⟨rfl, fun _ => rfl⟩
  | goto target =>
    simp only [follow, Prod.mk.injEq, Option.some.injEq] at h
    rw [← h.2]
    exact ⟨rfl, fun hs => by simp [hs]⟩
  | start graph =>
    by_cases hg : graph = t.playback.graph
    · simp only [follow, hg, if_true, Prod.mk.injEq, Option.some.injEq] at h
      rw [← h.2]
      exact ⟨rfl, fun hs => by simp [hs]⟩
    · simp [follow, hg] at h

theorem sameBranches_follow (t : Turn β) (index : Nat) (ending : Ending) :
    t.SameBranches (t.follow index ending).1 := by
  refine ⟨t.calm_follow index ending, ?_, ?_, fun i => ?_⟩ <;>
    cases ending <;> simp only [follow] <;> try rfl
  all_goals split_ifs <;> rfl

theorem Working.push {t : Turn β} {busy : List Nat} (h : t.Working busy) {b : Branch}
    (hb : b.step = .visit) : (t.push b).Working busy where
  running := h.running
  skips hs := by
    obtain ⟨hpending, hpause, hready⟩ := h.skips hs
    refine ⟨hpending, hpause, ?_⟩
    intro c hc
    rcases List.mem_append.mp hc with hc | hc
    · exact hready c hc
    · rw [List.mem_singleton.mp hc, hb]
  polled i hi := by
    rcases h.polled i hi with hbusy | hpolled
    · exact Or.inl hbusy
    · refine Or.inr (hpolled.mono fun c hc => ?_)
      simp only [Turn.push, List.mem_append] at hc ⊢
      tauto

theorem Working.defer {t : Turn β} {busy : List Nat} (h : t.Working busy)
    (hs : t.playback.skipping = false) (b : Branch) : (t.defer b).Working busy where
  running := h.running
  skips hskip := by
    have htrue : t.playback.skipping = true := hskip
    simp [hs] at htrue
  polled i hi := by
    rcases h.polled i hi with hbusy | hpolled
    · exact Or.inl hbusy
    · refine Or.inr (hpolled.mono fun c hc => ?_)
      simp only [Turn.defer, List.mem_append] at hc ⊢
      tauto

/-- A branch to a node is taken up in this turn or waits. -/
theorem Working.take {t : Turn β} {busy : List Nat} (h : t.Working busy) {b : Branch}
    (hb : b.step = .visit) (hw : t.playback.skipping = true → b.wake = .now) :
    (if b.wake = .now then t.push b else t.defer b).Working busy := by
  split_ifs with hnow
  · exact h.push hb
  · have hs : t.playback.skipping = false := by
      by_contra hs
      exact hnow (hw (by simpa using hs))
    exact h.defer hs b

theorem followAll_ready_ne_nil {t : Turn β} (index : Nat) (endings : List Ending)
    (h : t.ready ≠ [] ∨ t.playback.pending ≠ []) :
    (t.followAll index endings).1.ready ≠ [] ∨
      (t.followAll index endings).1.playback.pending ≠ [] := by
  induction endings generalizing t with
  | nil => exact h
  | cons ending rest ih =>
    have hsame := t.sameBranches_follow index ending
    rw [followAll]
    rcases hf : t.follow index ending with ⟨u, _ | b⟩ <;> rw [hf] at hsame <;> dsimp only
    · refine ih ?_
      rw [hsame.ready, hsame.pending]
      exact h
    · refine ih ?_
      split_ifs
      · exact Or.inl (by simp [push])
      · exact Or.inr (by simp [defer])

theorem Working.followAll {t : Turn β} {busy : List Nat} (h : t.Working busy) (index : Nat)
    (endings : List Ending) : (t.followAll index endings).1.Working busy := by
  induction endings generalizing t with
  | nil => exact h
  | cons ending rest ih =>
    have hu := (t.sameBranches_follow index ending).working h
    have hskip := (t.calm_follow index ending).skipping
    rw [Turn.followAll]
    rcases hf : t.follow index ending with ⟨u, _ | b⟩ <;> rw [hf] at hu hskip <;> dsimp only
    · exact ih hu
    · obtain ⟨hstep, hnow⟩ := follow_branch hf
      exact ih (hu.take hstep fun hs => hnow (hskip ▸ hs))

/-- An ending that led to a branch left one. -/
theorem followAll_of_found {t : Turn β} {index : Nat} {endings : List Ending}
    (h : (t.followAll index endings).2 = true) :
    (t.followAll index endings).1.ready ≠ [] ∨
      (t.followAll index endings).1.playback.pending ≠ [] := by
  induction endings generalizing t with
  | nil => simp [Turn.followAll] at h
  | cons ending rest ih =>
    rw [Turn.followAll] at h ⊢
    rcases hf : t.follow index ending with ⟨u, _ | b⟩ <;> simp only [hf] at h ⊢
    · exact ih h
    · refine followAll_ready_ne_nil index rest ?_
      split_ifs
      · exact Or.inl (by simp [push])
      · exact Or.inr (by simp [defer])

/-! ### The end of a run -/

/-- Without a branch left no node runs. -/
theorem Working.isRunningAt_eq_false {t : Turn β} (h : t.Working []) (hr : t.ready = [])
    (hp : t.playback.pending = []) (index : Nat) : t.playback.isRunningAt index = false := by
  by_contra hi
  have hi : t.playback.isRunningAt index = true := by simpa using hi
  rcases h.polled index hi with hbusy | ⟨b, hb, -⟩
  · exact absurd hbusy List.not_mem_nil
  · simp [hr, hp] at hb

theorem Sound.of_stopped {t : Turn β} (h : t.playback.phase ≠ .running) (hp : t.playback.Sound) :
    t.Sound where
  stopped _ := hp
  waits hrun := absurd hrun h
  skips hrun := absurd hrun h
  polled hrun := absurd hrun h

theorem sound_endRun {t : Turn β} (h : t.Working []) (hr : t.ready = [])
    (hp : t.playback.pending = []) : t.endRun.Sound := by
  have hnodes := h.isRunningAt_eq_false hr hp
  have hstopped : t.endRun.playback.phase ≠ .running := by simp [endRun]
  refine .of_stopped hstopped ?_
  exact .of_rest hstopped rfl rfl rfl (by simp [endRun]) hnodes

theorem sound_endPause {t : Turn β} (h : t.Working []) (hr : t.ready = [])
    (hp : t.playback.pending = []) (hpoints : t.playback.resumePoints ≠ []) :
    t.endPause.Sound := by
  have hnodes := h.isRunningAt_eq_false hr hp
  have hstopped : t.endPause.playback.phase ≠ .running := by simp [endPause]
  refine .of_stopped hstopped ?_
  exact .of_rest hstopped hp rfl rfl (fun _ => hpoints) hnodes

theorem sound_settle {t : Turn β} (h : t.Working []) : t.settle.Sound := by
  by_cases hw : t.ready = [] ∧ t.playback.pending = []
  · obtain ⟨hr, hp⟩ := hw
    unfold settle
    rw [if_neg (by simp [h.running, hr, hp])]
    split_ifs with hpause
    · rw [Bool.and_eq_true] at hpause
      have hpoints : t.playback.resumePoints ≠ [] := by simpa using hpause.2
      exact sound_endPause h hr hp hpoints
    · exact sound_endRun h hr hp
  · have hgo : t.ready ≠ [] ∨ t.playback.pending ≠ [] := by
      rw [not_and_or] at hw
      exact hw
    unfold settle
    rw [if_pos (by rcases hgo with hgo | hgo <;> simp [hgo])]
    exact h.sound hgo

/-! ### Working off a branch -/

variable [Behaviour β]

theorem sameBranches_resolve (t : Turn β) (index : Nat) (node : Node β) (b : β) :
    t.SameBranches (t.resolve index node b).1 := by
  by_cases h : Behaviour.outputs b = 0
  · rw [resolve_of_outputs_eq_zero t index node h]
    exact .refl t
  · cases hm : t.recalled? node b with
    | some output =>
      rw [resolve_of_recalled index h hm]
      refine SameBranches.trans ?_ (sameBranches_endingAt _ node output)
      exact .of_modifyNode (t.calm_recalled index) rfl rfl fun _ => rfl
    | none =>
      rw [resolve_of_choice index h hm]
      refine SameBranches.trans ?_ (sameBranches_endingAt _ node _)
      -- The memo may change, but not whether the node runs.
      exact .of_modifyNode (t.calm_chosen index node b) rfl rfl fun _ => rfl

theorem sameBranches_endings (t : Turn β) (index : Nat) (node : Node β) :
    t.SameBranches (t.endings index node).1 := by
  unfold endings
  split
  · exact .refl t
  · split_ifs
    · exact .refl t
    · exact t.sameBranches_resolve index node _

theorem sound_leave {t : Turn β} (h : t.Working []) (index : Nat) (node : Node β) :
    (t.leave index node).Sound := by
  have hendings : (t.endings index node).1.Working [] :=
    (t.sameBranches_endings index node).working h
  have hworking := hendings.followAll index (t.endings index node).2
  unfold leave
  rcases hf : (t.endings index node).1.followAll index (t.endings index node).2 with ⟨u, _ | _⟩ <;>
    rw [hf] at hworking <;> dsimp only
  · exact sound_settle hworking
  · have hfound := followAll_of_found (congrArg Prod.snd hf)
    rw [hf] at hfound
    exact hworking.sound hfound

theorem sound_finish {t : Turn β} {index : Nat} (h : t.Working [index]) :
    (t.finish index).Sound := by
  cases hn : t.playback.nodes[index]? with
  | none =>
    rw [finish_of_none hn]
    exact sound_settle (h.of_getElem?_eq_none hn)
  | some node =>
    cases hp : t.playback.pauseRequested with
    | false =>
      rw [finish_of_following hn hp]
      exact sound_leave h.rest index node
    | true =>
      have hkeep : ((t.rest index).keep index).Working [] := ⟨h.running, h.skips, h.rest.polled⟩
      have hpoints : ((t.rest index).keep index).playback.resumePoints ≠ [] := by simp [keep]
      rw [finish_of_pauseRequested hn hp]
      split_ifs with hnone
      · rw [Bool.and_eq_true, List.isEmpty_iff, List.isEmpty_iff] at hnone
        exact sound_endPause hkeep hnone.1 hnone.2 hpoints
      · refine hkeep.sound ?_
        rw [Bool.and_eq_true, List.isEmpty_iff, List.isEmpty_iff, not_and_or] at hnone
        exact hnone

theorem sound_enter {t : Turn β} (h : t.Working []) (index : Nat) (b : β) :
    (t.enter index b).Sound := by
  cases hs : t.playback.skipping with
  | true =>
    rw [enter_of_skipping hs]
    exact sound_finish ((h.busy index).called ..)
  | false =>
    rw [enter_of_playing hs]
    dsimp only
    split_ifs
    · -- The node needs more time.
      exact ((h.busy index).called ..).suspend hs _
    · exact sound_finish ((h.busy index).called ..)

theorem sound_visit {t : Turn β} (h : t.Working []) (index : Nat) : (t.visit index).Sound := by
  rcases t.hop_cases with ⟨hhop, hcalm, hnodes, hpending, hready⟩ | ⟨hhop, -, u, -, hkill⟩
  · have hworking : t.hop.1.Working [] := by
      refine SameBranches.working ⟨hcalm, hready, hpending, fun i => ?_⟩ h
      rw [isRunningAt, hnodes]
      rfl
    cases hn : t.hop.1.playback.nodes[index]? with
    | none =>
      rw [visit_of_none hhop hn]
      exact sound_settle hworking
    | some node =>
      have hpass : (t.hop.1.push
          { index := index + 1, step := .visit, origin := some index }).Sound := by
        refine (hworking.push rfl).sound (Or.inl ?_)
        simp [push]
      cases he : node.enabled with
      | false =>
        rw [visit_of_not_runnable hhop hn (Or.inl he)]
        exact hpass
      | true =>
        cases hb : node.behaviour with
        | none =>
          rw [visit_of_not_runnable hhop hn (Or.inr hb)]
          exact hpass
        | some b =>
          rw [visit_of_runnable hhop hn he hb]
          exact sound_enter hworking index b
  · rw [visit_of_killed hhop]
    have hplayback : t.hop.1.playback = (u.playback.kill u.world).1 := congrArg Prod.fst hkill
    refine .of_stopped ?_ ?_ <;> rw [hplayback]
    · simp [kill]
    · exact sound_kill _ _

theorem sound_poll {t : Turn β} {index : Nat} (h : t.Working [index])
    (hs : t.playback.skipping = false) : (t.poll index).Sound := by
  cases hn : t.playback.nodes[index]? with
  | none =>
    rw [poll_of_none hn]
    exact sound_settle (h.of_getElem?_eq_none hn)
  | some node =>
    cases hb : node.behaviour with
    | none =>
      rw [poll_of_behaviour_none hn hb]
      exact sound_finish h
    | some b =>
      rw [poll_of_some hn hb]
      dsimp only
      generalize (if node.running then Call.Form.poll else .run) = form
      split_ifs
      · exact (h.called ..).suspend hs _
      · exact sound_finish (h.called ..)

/-- Taking up a branch leaves the turn sound. -/
theorem sound_advance {t : Turn β} (h : t.Sound) (hp : t.playback.phase = .running) {b : Branch}
    {rest : List Branch} (hr : t.ready = b :: rest) :
    (({ t with ready := rest } : Turn β).advance b).Sound := by
  have hworking := h.working hp hr
  unfold advance
  cases hb : b.step with
  | visit =>
    rw [hb, if_neg (by decide)] at hworking
    exact sound_visit hworking b.index
  | resolve =>
    rw [hb, if_neg (by decide)] at hworking
    exact sound_finish (hworking.busy b.index)
  | poll =>
    rw [hb, if_pos rfl] at hworking
    refine sound_poll hworking ?_
    -- A skip has no branch that goes on with a node.
    by_contra hs
    have hvisit := (h.skips hp (by simpa using hs)).2.2 b (by simp [hr])
    simp [hb] at hvisit

/-- A turn that comes to its end leaves a sound playback. -/
theorem sound_run {fuel : Nat} {t : Turn β} {r : Playback β × World β} (h : t.Sound)
    (hr : t.run fuel = some r) : r.1.Sound := by
  induction fuel generalizing t with
  | zero =>
    rw [run] at hr
    split_ifs at hr with hstop
    obtain rfl := Option.some.inj hr
    rw [Bool.or_eq_true, List.isEmpty_iff, decide_eq_true_iff] at hstop
    exact h.playback hstop
  | succ fuel ih =>
    rw [run] at hr
    split at hr
    · rename_i hready
      obtain rfl := Option.some.inj hr
      exact h.playback (Or.inl hready)
    · rename_i b rest hready
      split_ifs at hr with hp
      · have hnext := sound_advance h hp hready
        exact ih hnext hr
      · obtain rfl := Option.some.inj hr
        exact h.playback (Or.inr hp)

end Turn

end Cutscene
