import Cutscene.Proofs.Playback.Agreement
import Cutscene.Proofs.Playback.Change
import Cutscene.Proofs.Playback.Course

/-!
# Where a playback and its record start

The record of a playback names the node at which the playback is skipped, and the playback names one
as well. `Playback.Linked` says that it is the same node, as long as a playback has a record at all.
It asks for less than `Playback.Agrees` and `Playback.Sound`: a host that gives up the branches of a
playback by hand (`Playback.Meddling`) may stall it, but it cannot tear the playback off its
record. Every change of a turn keeps the link (`Turn.Change.linked`), and so does every operation
(`linked_perform`).
-/

namespace Cutscene

variable {β : Type}

namespace Playback

/-- A playback and its record, if there is one, are of one graph and start at one node. -/
structure Linked (p : Playback β) (reg : Registry) : Prop where
  graph : ∀ r, reg.record? p.id = some r → r.graph = p.graph
  start : ∀ r, reg.record? p.id = some r → r.start = p.start
  live : p.phase = .running → reg.isLive p.id = true
  finished : p.phase = .finished → reg.record? p.id = none

/-- What a host does to a playback without asking it. -/
inductive Meddling (p : Playback β) (w : World β) : Playback β × World β → Prop
  /-- The record is reset. -/
  | reset (unqueue : Bool) : Meddling p w
    (p.halt, { w with registry := w.registry.modify p.id (·.reset unqueue) })
  /-- The branches are given up. -/
  | clear : Meddling p w (p.clearBranches, w)

variable {p q : Playback β} {reg reg' : Registry}

theorem Linked.congr (h : p.Linked reg) (hid : q.id = p.id) (hg : q.graph = p.graph)
    (hs : q.start = p.start) (hp : q.phase = p.phase)
    (hr : reg'.record? p.id = reg.record? p.id) : q.Linked reg' := by
  refine ⟨?_, ?_, ?_, ?_⟩
  · rw [hid, hr, hg]
    exact h.graph
  · rw [hid, hr, hs]
    exact h.start
  · rw [hid, hp, Registry.isLive, hr]
    exact h.live
  · rw [hid, hp, hr]
    exact h.finished

/-- Nothing has to be linked to a record that is not there. -/
theorem linked_of_record?_eq_none (hr : reg.record? p.id = none) (hp : p.phase ≠ .running) :
    p.Linked reg where
  graph r h := by simp [hr] at h
  start r h := by simp [hr] at h
  live hrun := absurd hrun hp
  finished _ := hr

/-- A playback that has been registered as running is linked to its record. -/
theorem Linked.entered (h : p.Linked reg) (hid : q.id = p.id) (hg : q.graph = p.graph)
    (hp : q.phase = .running) (queue : Bool) (conversation : Option String) :
    q.Linked (reg.enter q.id q.graph q.start queue conversation) := by
  have hrecord : (reg.enter q.id q.graph q.start queue conversation).record? q.id =
      some (reg.startedRecord q.id q.graph q.start queue conversation) :=
    (Registry.record?_enter ..).trans (if_pos rfl)
  refine ⟨fun r hr => ?_, fun r hr => ?_, fun _ => ?_, fun hf => by simp [hp] at hf⟩
  · obtain rfl := Option.some.inj (hrecord.symm.trans hr)
    -- A record that was there before is of the right graph.
    unfold Registry.startedRecord
    cases hold : reg.record? q.id with
    | none => rfl
    | some s =>
      rw [hid] at hold
      exact (h.graph s hold).trans hg.symm
  · obtain rfl := Option.some.inj (hrecord.symm.trans hr)
    rfl
  · exact Registry.isLive_iff.mpr ⟨_, hrecord, rfl⟩

/-- A playback that does not run any more keeps the link if its record changes without a start. -/
theorem Linked.stopped_record (h : p.Linked reg) (hid : q.id = p.id) (hg : q.graph = p.graph)
    (hs : q.start = p.start) (hp : q.phase ≠ .running) (hf : q.phase = .finished → p.phase =
      .finished) {f : Record → Record} (hr : reg'.record? p.id = (reg.record? p.id).map f)
    (hfg : ∀ r, (f r).graph = r.graph) (hfs : ∀ r, (f r).start = r.start) : q.Linked reg' := by
  refine ⟨?_, ?_, fun hrun => absurd hrun hp, fun hfinished => ?_⟩
  · intro r hrecord
    rw [hid, hr] at hrecord
    obtain ⟨s, hq, rfl⟩ := Option.map_eq_some_iff.mp hrecord
    rw [hfg, hg, h.graph s hq]
  · intro r hrecord
    rw [hid, hr] at hrecord
    obtain ⟨s, hq, rfl⟩ := Option.map_eq_some_iff.mp hrecord
    rw [hfs, hs, h.start s hq]
  · rw [hid, hr, h.finished (hf hfinished)]
    rfl

/-- Records that go and places in the skip queue do not matter to the link. -/
theorem Linked.trim (h : p.Linked reg) (hn : reg.attached.Nodup) (ht : reg.Trim reg') :
    p.Linked reg' := by
  cases hr : reg.record? p.id with
  | none => exact h.congr rfl rfl rfl rfl ((ht.record?_eq_none hr).trans hr.symm)
  | some r =>
    rcases ht.record? hn hr with ⟨queued, hr'⟩ | ⟨hr', hrun, -⟩
    · refine ⟨fun s hq => ?_, fun s hq => ?_, fun hp => ?_, fun hf => ?_⟩
      · obtain rfl := Option.some.inj (hr'.symm.trans hq)
        exact h.graph r hr
      · obtain rfl := Option.some.inj (hr'.symm.trans hq)
        exact h.start r hr
      · obtain ⟨s, hq, hqrun⟩ := Registry.isLive_iff.mp (h.live hp)
        obtain rfl := Option.some.inj (hr.symm.trans hq)
        exact Registry.isLive_iff.mpr ⟨_, hr', hqrun⟩
      · simp [h.finished hf] at hr
    · refine linked_of_record?_eq_none hr' fun hp => ?_
      obtain ⟨s, hq, hqrun⟩ := Registry.isLive_iff.mp (h.live hp)
      obtain rfl := Option.some.inj (hr.symm.trans hq)
      simp [hrun] at hqrun

theorem linked_kill (p : Playback β) (w : World β) : (p.kill w).1.Linked (p.kill w).2.registry := by
  refine linked_of_record?_eq_none ?_ (by simp [kill])
  rw [registry_kill, Registry.record?_drop]
  exact if_pos rfl

theorem Linked.meddling {w : World β} {r : Playback β × World β} (h : p.Linked w.registry)
    (hm : p.Meddling w r) : r.1.Linked r.2.registry := by
  cases hm with
  | reset unqueue =>
    have hidentity := p.identity_halt
    have hstart : p.halt.start = p.start := by
      unfold halt
      dsimp only
      split_ifs <;> rfl
    refine h.stopped_record (congrArg Identity.id hidentity) (congrArg Identity.graph hidentity)
      hstart p.halt_phase_ne_running (fun hf => ?_) (f := (·.reset unqueue)) ?_ (fun _ => rfl)
      fun _ => rfl
    · rw [halt_phase] at hf
      split_ifs at hf
      exact hf
    · rw [Registry.record?_reset]
      exact if_pos rfl
  | clear => exact h.congr rfl rfl rfl rfl rfl

end Playback

/-! ### Turns -/

namespace Turn

theorem linked_endRun (t : Turn β) : t.endRun.playback.Linked t.endRun.world.registry := by
  refine Playback.linked_of_record?_eq_none ?_ (by simp [endRun])
  rw [t.endRun_world.2.2.2, Registry.record?_drop]
  exact if_pos rfl

theorem linked_endPause {t : Turn β} (h : t.playback.Linked t.world.registry) :
    t.endPause.playback.Linked t.endPause.world.registry := by
  refine h.stopped_record rfl rfl rfl (by simp [endPause])
    (fun hover => by simp [endPause] at hover) (f := fun r => { r with
      running := false
      resumePoints := t.playback.resumePoints
      parameters := t.playback.parameters.snapshot }) ?_ (fun _ => rfl) fun _ => rfl
  exact (Registry.record?_pause ..).trans (if_pos rfl)

variable [Behaviour β] {t u : Turn β}

theorem Change.linked (hc : t.Change u) (h : t.playback.Linked t.world.registry) :
    u.playback.Linked u.world.registry := by
  rcases hc.calm_or_stops with ⟨hcalm, hstart⟩ | rfl | ⟨-, rfl⟩ | ⟨-, rfl⟩
  · exact h.congr (congrArg Playback.Identity.id hcalm.identity)
      (congrArg Playback.Identity.graph hcalm.identity) hstart hcalm.phase
      (by rw [hcalm.world.registry])
  · exact t.linked_endRun
  · exact linked_endPause h
  · exact t.playback.linked_kill t.world

theorem Changes.linked (hc : t.Changes u) (h : t.playback.Linked t.world.registry) :
    u.playback.Linked u.world.registry :=
  hc.invariant (I := fun u : Turn β => u.playback.Linked u.world.registry) h
    fun _ _ hu _ hchange => hchange.linked hu

/-- Nothing is skipped in a turn that does not skip. -/
theorem Changes.notSkipping (hc : t.Changes u) (hs : t.playback.skipping = false) :
    u.playback.skipping = false := by
  refine hc.invariant (I := fun u : Turn β => u.playback.skipping = false) hs
    fun _ v hu _ hchange => ?_
  cases hv : v.playback.skipping with
  | false => rfl
  | true => exact absurd (hchange.skipping hv) (by simp [hu])

end Turn

/-! ### Operations -/

namespace Playback

variable {p : Playback β} {w : World β}

theorem Linked.stopped (h : p.Linked w.registry) :
    (p.stopped w).1.Linked (p.stopped w).2.registry := by
  unfold Playback.stopped
  split_ifs
  · exact p.linked_kill w
  · exact h

theorem Linked.interrupted (h : p.Linked w.registry) :
    (p.interrupted w).1.Linked (p.interrupted w).2.registry := by
  unfold Playback.interrupted
  split_ifs
  · exact p.linked_kill _
  · exact h

theorem Linked.playBeginning (h : p.Linked w.registry) (start : Nat) (queue : Bool) :
    (p.playBeginning w start queue).playback.Linked
      (p.playBeginning w start queue).world.registry := by
  have hstarted : ((p.stopped w).1.playTurn (p.stopped w).2 start queue).playback.Linked
      ((p.stopped w).1.playTurn (p.stopped w).2 start queue).world.registry :=
    h.stopped.entered (q := (p.stopped w).1.restarted start) rfl rfl rfl _ _
  unfold Playback.playBeginning
  dsimp only
  split_ifs
  · exact linked_kill _ _
  · exact hstarted.congr rfl rfl rfl rfl rfl
  · exact hstarted

theorem Linked.skipTurn (h : p.Linked w.registry) (start : Nat) :
    (p.skipTurn w start).playback.Linked (p.skipTurn w start).world.registry := by
  have hidentity := p.identity_skippingFrom start
  have hentered := h.entered (q := p.skippingFrom start) (congrArg Identity.id hidentity)
    (congrArg Identity.graph hidentity) rfl false (p.skippingFrom start).conversation
  have hregistry : (p.skipTurn w start).world.registry =
      ((p.skippingFrom start).entered w false).registry := by
    unfold Playback.skipTurn
    dsimp only
    split_ifs <;> rfl
  rw [hregistry]
  exact hentered

theorem Linked.resumeTurn (h : p.Linked w.registry) (start : Nat) (points : List Nat)
    (parameters : String) (rerun : Bool) :
    (p.resumeTurn w start points parameters rerun).playback.Linked
      (p.resumeTurn w start points parameters rerun).world.registry := by
  have hrestored : p.Linked (w.noticeAll (p.restored parameters).2).registry := by
    rw [(w.quiet_noticeAll _).registry]
    exact h
  have hentered := hrestored.entered (q := p.revived start (p.restored parameters).1) rfl rfl rfl
    p.isSkippable (p.revived start (p.restored parameters).1).conversation
  unfold Playback.resumeTurn
  dsimp only
  rw [(World.quiet_noticeAll _ _).registry]
  exact hentered

theorem linked_update (h : p.Linked w.registry) : (p.updateBeginning w).playback.Linked
    (p.updateBeginning w).world.registry := by
  have hsame : ∀ q : Playback β, q.identity = p.identity → q.start = p.start →
      q.phase = p.phase → q.Linked w.registry := fun q hi hs hp =>
    h.congr (congrArg Identity.id hi) (congrArg Identity.graph hi) hs hp rfl
  unfold Playback.updateBeginning
  split_ifs with hrest hlive
  · exact h
  · -- A playback that runs is registered as running.
    rw [not_or, not_not] at hrest
    simp [h.live hrest.1] at hlive
  · exact hsame _ rfl rfl rfl
  · exact linked_kill _ _
  · exact hsame _ rfl rfl rfl
  · exact hsame _ rfl rfl rfl

variable [Behaviour β]

theorem Linked.pause (h : p.Linked w.registry) : (p.pause w).1.Linked (p.pause w).2.registry := by
  by_cases hidle : p.phase ≠ .running ∨ p.skipping = true
  · rw [pause_of_not_playing w hidle]
    exact h
  · obtain ⟨hrun, hskip⟩ : p.phase = .running ∧ p.skipping = false := by simpa using hidle
    have hpausing : p.pausing.Linked w.registry := h.congr rfl rfl rfl rfl rfl
    rw [pause_of_playing w hrun hskip]
    split_ifs
    · exact Turn.linked_endPause (t := ⟨p.pausing, w, []⟩) hpausing
    · exact hpausing

theorem Linked.beginning (h : p.Linked w.registry) {op : Operation} (hop : op.isReset = false) :
    (p.beginning w op).playback.Linked (p.beginning w op).world.registry := by
  cases op with
  | play start queue => exact h.playBeginning start queue
  | skip start =>
    change (p.skipBeginning w start).playback.Linked (p.skipBeginning w start).world.registry
    unfold skipBeginning
    split_ifs
    · exact p.linked_kill w
    · exact h.skipTurn start
  | pause => exact h.pause
  | resume start points parameters rerun =>
    change (p.resumeBeginning w start points parameters rerun).playback.Linked
      (p.resumeBeginning w start points parameters rerun).world.registry
    unfold resumeBeginning
    by_cases hp : points = []
    · rw [if_pos hp]
      exact h.playBeginning start true
    · rw [if_neg hp]
      dsimp only
      split_ifs
      · exact Turn.linked_endRun _
      · exact h.interrupted.resumeTurn start points parameters rerun
  | kill => exact p.linked_kill w
  | update => exact linked_update h
  | reset unqueue => simp [Operation.isReset] at hop

variable {fuel : Nat} {op : Operation} {r : Playback β × World β}

/-- Between operations nothing is being skipped, so no operation begins to poll in a skip. -/
theorem straight_beginning (hs : p.skipping = false) (w : World β) (op : Operation) :
    (p.beginning w op).Straight := by
  have hplay : ∀ start queue, (p.playBeginning w start queue).Straight := by
    intro start queue hskip b hb
    unfold playBeginning at hskip hb
    dsimp only at hskip hb
    split_ifs at hskip hb
    · exact absurd hb List.not_mem_nil
    · exact absurd hb List.not_mem_nil
    · exact absurd hskip Bool.false_ne_true
  have hstill : ∀ s : Playback β × World β, (Turn.still s).Straight :=
    fun s _ b hb => absurd hb List.not_mem_nil
  cases op with
  | play start queue => exact hplay start queue
  | skip start =>
    change (p.skipBeginning w start).Straight
    unfold skipBeginning
    split_ifs
    · exact hstill _
    · intro _ b hb
      rw [List.mem_singleton.mp hb]
  | resume start points parameters rerun =>
    change (p.resumeBeginning w start points parameters rerun).Straight
    unfold resumeBeginning
    by_cases hp : points = []
    · rw [if_pos hp]
      exact hplay start true
    · rw [if_neg hp]
      dsimp only
      split_ifs
      · exact hstill _
      · exact fun hskip => absurd hskip Bool.false_ne_true
  | update =>
    change (p.updateBeginning w).Straight
    -- Only in the last case is there anything to be taken up.
    unfold updateBeginning
    split_ifs
    · exact hstill _
    · exact hstill _
    · exact hstill _
    · exact hstill _
    · exact hstill _
    · intro hskip
      have hskip : p.skipping = true := hskip
      simp [hs] at hskip
  | _ => exact hstill _

/-- Every operation keeps a playback linked to its record. -/
theorem linked_perform (h : p.Linked w.registry) (hs : p.skipping = false)
    (hop : op.isReset = false) (hr : p.perform fuel w op = some r) :
    r.1.Linked r.2.registry := by
  rw [perform_eq] at hr
  obtain ⟨u, hu, rfl, -⟩ := Turn.changes_run (straight_beginning hs w op) hr
  exact hu.linked (h.beginning hop)

/-- No operation but a skip begins to skip. -/
theorem notSkipping_beginning (hs : p.skipping = false) (w : World β)
    (hop : ∀ start, op ≠ .skip start) : (p.beginning w op).playback.skipping = false := by
  have hplay : ∀ start queue, (p.playBeginning w start queue).playback.skipping = false := by
    intro start queue
    unfold playBeginning
    dsimp only
    split_ifs <;> rfl
  cases op with
  | play start queue => exact hplay start queue
  | skip start => exact absurd rfl (hop start)
  | resume start points parameters rerun =>
    change (p.resumeBeginning w start points parameters rerun).playback.skipping = false
    unfold resumeBeginning
    by_cases hp : points = []
    · rw [if_pos hp]
      exact hplay start true
    · rw [if_neg hp]
      dsimp only
      split_ifs <;> rfl
  | kill => rfl
  | pause =>
    change (p.pause w).1.skipping = false
    by_cases hidle : p.phase ≠ .running ∨ p.skipping = true
    · rw [pause_of_not_playing w hidle]
      exact hs
    · obtain ⟨hrun, -⟩ : p.phase = .running ∧ p.skipping = false := by simpa using hidle
      rw [pause_of_playing w hrun hs]
      split_ifs
      · rfl
      · exact hs
  | update =>
    change (p.updateBeginning w).playback.skipping = false
    unfold updateBeginning
    split_ifs
    · exact hs
    · rfl
    · exact hs
    · rfl
    · exact hs
    · exact hs
  | reset unqueue =>
    change (p.reset w unqueue).1.skipping = false
    unfold Playback.reset Playback.halt
    dsimp only
    split_ifs
    · exact hs
    · rfl
    · rfl

/-- No skip is left unfinished by an operation. -/
theorem notSkipping_perform (hs : p.skipping = false) (hr : p.perform fuel w op = some r) :
    r.1.skipping = false := by
  by_cases hop : ∃ start, op = .skip start
  · obtain ⟨start, rfl⟩ := hop
    exact (sound_skip hr).notSkipping
  · have hnot := notSkipping_beginning hs w fun start h => hop ⟨start, h⟩
    rw [perform_eq] at hr
    obtain ⟨u, hu, rfl, -⟩ := Turn.changes_run (straight_beginning hs w op) hr
    exact hu.notSkipping hnot

end Playback

end Cutscene
