import Cutscene.Behaviour.Builtin
import Cutscene.Proofs.Playback.Operation
import Cutscene.Proofs.Playback.Sound

/-!
# Playbacks that a host can come by

`Playback.Reached` are the playbacks that come from a new one by any number of operations, while
anything else may happen around them that leaves their own record alone. They are sound
(`sound_of_reached`): none is stalled and none is half cleared. Most operations need no more than
that (`Sound.perform`), but a turn that an update begins asks for `Playback.IsLive` as well: a
playback that runs is registered as running.
-/

namespace Cutscene.Playback

variable {β : Type}

/-! ### How turns begin -/

theorem isRunningAt_forgetChoices (p : Playback β) (index : Nat) :
    p.forgetChoices.isRunningAt index = p.isRunningAt index := by
  unfold isRunningAt forgetChoices
  rw [List.getElem?_map]
  cases p.nodes[index]? <;> rfl

theorem isRunningAt_restarted (p : Playback β) (start index : Nat) :
    (p.restarted start).isRunningAt index = false :=
  (isRunningAt_forgetChoices _ _).trans (p.isRunningAt_clearBranches index)

theorem isRunningAt_skippingFrom (p : Playback β) (start index : Nat) :
    (p.skippingFrom start).isRunningAt index = false := by
  unfold skippingFrom
  split_ifs
  · exact p.isRunningAt_clearBranches index
  · exact (isRunningAt_forgetChoices _ _).trans (p.isRunningAt_clearBranches index)

theorem skippingFrom_pending (p : Playback β) (start : Nat) :
    (p.skippingFrom start).pending = [] := by
  unfold skippingFrom
  split_ifs <;> rfl

theorem working_of_still {t : Turn β} (hrun : t.playback.phase = .running)
    (hs : t.playback.skipping = true →
      t.playback.pending = [] ∧ t.playback.pauseRequested = false ∧ ∀ b ∈ t.ready, b.step = .visit)
    (hnodes : ∀ index, t.playback.isRunningAt index = false) : t.Working [] where
  running := hrun
  skips := hs
  polled index hi := by simp [hnodes index] at hi

theorem working_playTurn (p : Playback β) (w : World β) (start : Nat) (queue : Bool)
    (ready : List Branch) :
    ({ p.playTurn w start queue with ready } : Turn β).Working [] :=
  working_of_still rfl (fun hs => absurd hs Bool.false_ne_true) (p.isRunningAt_restarted start)

theorem working_skipTurn (p : Playback β) (w : World β) (start : Nat) :
    (p.skipTurn w start).Working [] := by
  refine working_of_still rfl (fun _ => ⟨p.skippingFrom_pending start, rfl, fun b hb => ?_⟩)
    (p.isRunningAt_skippingFrom start)
  rw [List.mem_singleton.mp hb]

theorem working_resumeTurn (p : Playback β) (w : World β) (start : Nat) (points : List Nat)
    (parameters : String) (rerun : Bool) :
    (p.resumeTurn w start points parameters rerun).Working [] :=
  working_of_still rfl (fun hs => absurd hs Bool.false_ne_true) p.isRunningAt_clearBranches

/-! ### Operations on sound playbacks -/

section

variable [Behaviour β] {fuel : Nat} {p : Playback β} {w : World β} {r : Playback β × World β}

/-- Playing leaves a sound playback, whatever it was before. -/
theorem sound_play {start : Nat} {queue : Bool} (h : p.play fuel w start queue = some r) :
    r.1.Sound := by
  rw [play_eq] at h
  dsimp only at h
  split_ifs at h
  · obtain rfl := Option.some.inj h
    exact sound_kill _ _
  · obtain rfl := Option.some.inj h
    -- The turn does not begin: its first branch waits.
    have hwait := (working_playTurn (p.stopped w).1 (p.stopped w).2 start queue []).defer rfl
    exact ((hwait _).sound (Or.inr (by simp [Turn.defer]))).playback (Or.inl rfl)
  · have hturn := working_playTurn (p.stopped w).1 (p.stopped w).2 start queue
      [{ index := start, step := .visit }]
    exact Turn.sound_run (hturn.sound (Or.inl (List.cons_ne_nil _ _))) h

/-- Skipping leaves a sound playback, whatever it was before. -/
theorem sound_skip {start : Nat} (h : p.skip fuel w start = some r) : r.1.Sound := by
  rw [skip_eq] at h
  split_ifs at h
  · obtain rfl := Option.some.inj h
    exact sound_kill p w
  · have hturn := (p.working_skipTurn w start).sound (Or.inl (List.cons_ne_nil _ _))
    exact Turn.sound_run hturn h

/-- Resuming leaves a sound playback, whatever it was before. -/
theorem sound_resume {start : Nat} {points : List Nat} {parameters : String} {rerun : Bool}
    (h : p.resume fuel w start points parameters rerun = some r) : r.1.Sound := by
  by_cases hp : points = []
  · subst hp
    rw [resume_of_nil] at h
    exact sound_play h
  · rw [resume_of_ne_nil fuel p w start hp] at h
    have hturn := working_resumeTurn (p.interrupted w).1 (p.interrupted w).2 start points
      parameters rerun
    dsimp only at h
    split_ifs at h with hvalid
    · -- None of the resume points is a node: the run is over at once.
      obtain rfl := Option.some.inj h
      have hready : ((p.interrupted w).1.resumeTurn (p.interrupted w).2 start points parameters
          rerun).ready = [] := List.map_eq_nil_iff.mpr hvalid
      have hover := Turn.sound_endRun hturn hready rfl
      exact hover.stopped (by simp [Turn.endRun])
    · refine Turn.sound_run (hturn.sound (Or.inl ?_)) h
      exact fun hnil => hvalid (List.map_eq_nil_iff.mp hnil)

/-- A branch that is not kept for the pause stays, and one that is kept leaves a resume point. -/
theorem resumePoints_pausing_ne_nil (h : p.pending ≠ []) (hp : p.pausing.pending = []) :
    p.pausing.resumePoints ≠ [] := by
  obtain ⟨b, hb⟩ := List.exists_mem_of_ne_nil _ h
  have hsome : p.resumePoint? b ≠ none := by
    intro hnone
    have hmem : b ∈ p.pausing.pending := List.mem_filter.mpr ⟨hb, by simp [hnone]⟩
    simp [hp] at hmem
  obtain ⟨point, hpoint⟩ := Option.ne_none_iff_exists'.mp hsome
  exact List.ne_nil_of_mem (List.mem_filterMap.mpr ⟨b, hb, hpoint⟩)

theorem Sound.working_pausing (h : p.Sound) (hrun : p.phase = .running) :
    (⟨p.pausing, w, []⟩ : Turn β).Working [] where
  running := hrun
  skips hs := by
    have htrue : p.skipping = true := hs
    simp [h.notSkipping] at htrue
  polled index hi := by
    obtain ⟨b, hb, hstep, hindex⟩ := h.polled index hi
    -- Only branches that arrive at a node are given up for a resume point.
    have hkept : p.resumePoint? b = none := by simp [resumePoint?, hstep]
    exact Or.inr ⟨b, List.mem_filter.mpr ⟨hb, by simp [hkept]⟩, hstep, hindex⟩

theorem Sound.pause (h : p.Sound) : (p.pause w).1.Sound := by
  by_cases hrun : p.phase = .running
  · have hworking := h.working_pausing (w := w) hrun
    rw [pause_of_playing w hrun h.notSkipping]
    split_ifs with hp
    · -- Nothing has to be waited for, so the pause takes effect at once.
      have hpoints := resumePoints_pausing_ne_nil (h.waits hrun) hp
      have hpaused := Turn.sound_endPause hworking rfl hp hpoints
      exact hpaused.stopped (by simp [Turn.endPause])
    · have hasked := hworking.sound (Or.inr hp)
      exact hasked.playback (Or.inl rfl)
  · rw [pause_of_not_playing w (Or.inl hrun)]
    exact h

omit [Behaviour β] in
theorem Sound.halt (h : p.Sound) : p.halt.Sound := by
  unfold Playback.halt
  dsimp only
  split_ifs with hrun
  · exact .of_rest (by simp) rfl rfl rfl (by simp) p.isRunningAt_clearBranches
  · exact .of_rest hrun rfl rfl rfl h.resumable p.isRunningAt_clearBranches

omit [Behaviour β] in
theorem Sound.reset (h : p.Sound) (unqueue : Bool) : (p.reset w unqueue).1.Sound := by
  unfold Playback.reset
  split_ifs
  · exact h
  · exact h.halt

omit [Behaviour β] in
/-- The branches that are due, together with those that are not, are the branches that wait. -/
theorem mem_due_append_waiting (p : Playback β) (w : World β) (b : Branch) (hb : b ∈ p.pending) :
    b ∈ p.due w ++ (p.waiting w).pending := by
  rw [List.mem_append, due, waiting, List.mem_filter, List.mem_filter]
  cases b.wake.isDue w.clock <;> simp [hb]

omit [Behaviour β] in
theorem Sound.working_update (h : p.Sound) (hrun : p.phase = .running) :
    (⟨p.waiting w, w, p.due w⟩ : Turn β).Working [] where
  running := hrun
  skips hs := by
    have htrue : p.skipping = true := hs
    simp [h.notSkipping] at htrue
  polled index hi := Or.inr ((h.polled index hi).mono (p.mem_due_append_waiting w))

theorem Sound.update (h : p.Sound) (hlive : p.phase = .running → w.registry.isLive p.id = true)
    (hr : p.update fuel w = some r) : r.1.Sound := by
  by_cases hrun : p.phase = .running
  · have hpending := h.waits hrun
    have hworking := h.working_update (w := w) hrun
    obtain ⟨b, hb⟩ := List.exists_mem_of_ne_nil _ hpending
    have hmem := p.mem_due_append_waiting w b hb
    rw [update_of_isLive fuel hrun hpending (hlive hrun)] at hr
    split_ifs at hr with hdue
    · -- Nothing is due, so the branch that waits is still there.
      obtain rfl := Option.some.inj hr
      rw [hdue, List.nil_append] at hmem
      have hsound := hworking.sound (Or.inr (List.ne_nil_of_mem hmem))
      exact hsound.playback (Or.inl hdue)
    · obtain rfl := Option.some.inj hr
      exact sound_kill _ w
    · -- While a scene is being loaded, what is due goes on waiting behind the others.
      obtain rfl := Option.some.inj hr
      refine ⟨fun _ => ?_, fun hstop => absurd hrun hstop, h.notSkipping,
        fun hpaused => by simp [waiting, hrun] at hpaused, fun index hi => ?_⟩
      · exact List.append_ne_nil_of_right_ne_nil _ hdue
      · refine (h.polled index hi).mono fun c hc => ?_
        have hc := p.mem_due_append_waiting w c hc
        rw [List.mem_append] at hc ⊢
        exact hc.symm
    · exact Turn.sound_run (hworking.sound (Or.inl hdue)) hr
  · rw [update_of_nothing_waiting fuel w (Or.inl hrun)] at hr
    obtain rfl := Option.some.inj hr
    exact h

/-- Every operation takes a sound playback to a sound playback. -/
theorem Sound.perform (h : p.Sound) (hlive : p.phase = .running → w.registry.isLive p.id = true)
    {op : Operation} (hr : p.perform fuel w op = some r) : r.1.Sound := by
  cases op with
  | play start queue => exact sound_play hr
  | skip start => exact sound_skip hr
  | pause =>
    obtain rfl := Option.some.inj hr
    exact h.pause
  | resume start points parameters rerun => exact sound_resume hr
  | kill =>
    obtain rfl := Option.some.inj hr
    exact sound_kill p w
  | update => exact h.update hlive hr
  | reset unqueue =>
    obtain rfl := Option.some.inj hr
    exact h.reset unqueue

end

/-! ### A playback that runs is registered as running -/

/-- A playback that runs has a record that runs. -/
def IsLive (p : Playback β) (w : World β) : Prop :=
  p.phase = .running → w.registry.isLive p.id = true

theorem isLive_of_passage {p p' : Playback β} {reg reg' : Registry} {kinds : List Event.Kind}
    (hp : Passage p p' reg reg' kinds) (h : p.phase = .running → reg.isLive p.id = true)
    (hrun : p'.phase = .running) : reg'.isLive p.id = true := by
  cases hp with
  | calm hphase => exact h (hphase.symm.trans hrun)
  | entered start queue hphase ho =>
    have hrecord := Registry.record?_enter reg p.id p.id p.graph start queue p.conversation
    rw [if_pos rfl] at hrecord
    exact Registry.isLive_iff.mpr ⟨_, hrecord, rfl⟩
  | paused parameters hphase hphase' => simp [hphase'] at hrun
  | ended hphase hphase' => simp [hphase'] at hrun
  | killed hphase' => simp [hphase'] at hrun
  | lapsed hphase hr hphase' => simp [hphase'] at hrun

theorem IsLive.stage {s s' : Playback β × World β} (h : IsLive s.1 s.2) (hs : Stage s s') :
    IsLive s'.1 s'.2 := by
  obtain ⟨kinds, hp, -⟩ := hs.passage
  intro hrun
  rw [hs.id_eq]
  exact isLive_of_passage hp h hrun

theorem IsLive.stages {s s' : Playback β × World β} (h : IsLive s.1 s.2) (hs : Stages s s') :
    IsLive s'.1 s'.2 := by
  induction hs with
  | refl => exact h
  | tail _ hs ih => exact ih.stage hs

/-! ### Playbacks that can be reached -/

/-- A playback as it is made: not started, and none of its nodes runs. -/
structure IsNew (p : Playback β) : Prop where
  phase : p.phase = .idle
  pending : p.pending = []
  pauseRequested : p.pauseRequested = false
  skipping : p.skipping = false
  nodes : ∀ n ∈ p.nodes, n.running = false

theorem IsNew.sound {p : Playback β} (h : p.IsNew) : p.Sound := by
  have hphase : p.phase ≠ .running := by simp [h.phase]
  refine .of_rest hphase h.pending h.pauseRequested h.skipping (by simp [h.phase]) fun index => ?_
  unfold isRunningAt
  cases hn : p.nodes[index]? with
  | none => rfl
  | some n => exact h.nodes n (List.mem_of_getElem? hn)

variable [Behaviour β]

/-- What can become of a new playback and the world around it. -/
inductive Reached : Playback β → World β → Prop
  | new {p : Playback β} (h : p.IsNew) (w : World β) : Reached p w
  /-- The host does something with it; the call returns. -/
  | perform {p : Playback β} {w : World β} (h : Reached p w) {fuel : Nat} {op : Operation}
    {r : Playback β × World β} (hr : p.perform fuel w op = some r) : Reached r.1 r.2
  /-- Anything happens to the world but to the record of the playback. -/
  | elsewhere {p : Playback β} {w : World β} (h : Reached p w) {w' : World β}
    (hw : w'.registry.record? p.id = w.registry.record? p.id) : Reached p w'

theorem IsLive.perform {fuel : Nat} {p : Playback β} {w : World β} {op : Operation}
    {r : Playback β × World β} (h : IsLive p w) (hr : p.perform fuel w op = some r) :
    IsLive r.1 r.2 := by
  rcases perform_cases hr with hs | ⟨-, unqueue, rfl⟩
  · exact IsLive.stages (s := (p, w)) h hs
  · exact fun hrun => absurd hrun p.halt_phase_ne_running

theorem Reached.play {fuel start : Nat} {queue : Bool} {p : Playback β} {w : World β}
    {r : Playback β × World β} (h : Reached p w) (hr : p.play fuel w start queue = some r) :
    Reached r.1 r.2 := by
  have hperform : p.perform fuel w (.play start queue) = some r := hr
  exact h.perform hperform

theorem Reached.resume {fuel start : Nat} {points : List Nat} {parameters : String} {rerun : Bool}
    {p : Playback β} {w : World β} {r : Playback β × World β} (h : Reached p w)
    (hr : p.resume fuel w start points parameters rerun = some r) : Reached r.1 r.2 := by
  have hperform : p.perform fuel w (.resume start points parameters rerun) = some r := hr
  exact h.perform hperform

theorem Reached.pause {p : Playback β} {w : World β} (h : Reached p w) :
    Reached (p.pause w).1 (p.pause w).2 := by
  have hperform : p.perform 0 w .pause = some (p.pause w) := rfl
  exact h.perform hperform

theorem Reached.update {fuel : Nat} {p : Playback β} {w : World β} {r : Playback β × World β}
    (h : Reached p w) (hr : p.update fuel w = some r) : Reached r.1 r.2 := by
  have hperform : p.perform fuel w .update = some r := hr
  exact h.perform hperform

theorem Reached.isLive {p : Playback β} {w : World β} (h : Reached p w) : IsLive p w := by
  induction h with
  | new h w => exact fun hrun => by simp [h.phase] at hrun
  | perform _ hr ih => exact ih.perform hr
  | elsewhere _ hw ih =>
    intro hrun
    have hlive := ih hrun
    unfold Registry.isLive at hlive ⊢
    rw [hw]
    exact hlive

/-- However a host deals with a playback, a run always has a branch that waits, and a playback that
does not run has nothing left of a run. -/
theorem sound_of_reached {p : Playback β} {w : World β} (h : Reached p w) : p.Sound := by
  induction h with
  | new h w => exact h.sound
  | perform h hr ih => exact ih.perform h.isLive hr
  | elsewhere _ _ ih => exact ih

/-- A comment that leads back to itself, behind a node that nothing leads to. -/
def circling : Playback Builtin where
  id := 0
  graph := "circle"
  nodes :=
    [{ id := "", kind := "", title := "", enabled := false, endings := [], behaviour := none },
     { id := "", kind := "comment", title := "", enabled := true, endings := [.goto 1],
       behaviour := some (.comment ⟨"again"⟩) }]
  parameters := ⟨[]⟩
  settings := {}

/-- The comment runs once and then waits for the next tick. -/
theorem sound_circling :
    ∃ r, circling.perform 1 {} (.play 1 false) = some r ∧ r.1.phase = .running ∧ r.1.Sound := by
  have hplay : ∃ r, circling.perform 1 {} (.play 1 false) = some r ∧ r.1.phase = .running := by
    rw [perform, play_of_ne_zero 1 {} false Nat.one_ne_zero (by decide)]
    exact ⟨_, rfl, rfl⟩
  have hnew : circling.IsNew := ⟨rfl, rfl, rfl, rfl, by simp [circling]⟩
  obtain ⟨r, hr, hrun⟩ := hplay
  exact ⟨r, hr, hrun, sound_of_reached (.perform (.new hnew {}) hr)⟩

end Cutscene.Playback
