import Cutscene.Proofs.Playback.Pausing
import Cutscene.Proofs.Playback.Updates

/-!
# A pause loses no branch and makes none

A pause takes effect once nothing is under way any more. `pause_conserves` says what has become of
the branches at any time until then: whatever nodes do and whenever they are done, every branch that
waited when the pause was asked for is still under way, has left one resume point
(`Playback.pausePoint?`), or has run past the last node. Meanwhile behaviours run, but no ending is
taken, and as soon as nothing is under way the playback is paused, or over if there is nothing to go
on with.
-/

namespace Cutscene.Playback

variable {β : Type}

/-- How a playback stands that has been asked to pause, and what has been heard of it since. -/
inductive ComesToPause (places : List (Option Nat)) :
    Playback β × World β → List Event.Kind → Prop
  /-- Some branch is under way. -/
  | underWay {p : Playback β} {w : World β} (h : p.Holds p.pending places) :
    ComesToPause places (p, w) []
  /-- All branches that did not run past the last node are resume points, and the record says so. -/
  | paused {p : Playback β} {w : World β} (hphase : p.phase = .paused) (hpending : p.pending = [])
    (hpoints : p.resumePoints ≠ [])
    (haccounts : ∃ past, (p.resumePoints.map some ++ List.replicate past none).Perm places)
    (hrecord : ∃ record, w.registry.record? p.id = some record ∧ record.running = false ∧
      record.resumePoints = p.resumePoints ∧ record.parameters = p.parameters.snapshot) :
    ComesToPause places (p, w) [.paused p.resumePoints]
  /-- All branches have run past the last node. -/
  | ended {p : Playback β} {w : World β} (hphase : p.phase = .finished) (hpending : p.pending = [])
    (hpoints : p.resumePoints = []) (hpast : ∀ place ∈ places, place = none)
    (hrecord : w.registry.record? p.id = none) :
    ComesToPause places (p, w) (closing p.conversation)

/-- What is over or paused is not changed by what happens to the world around it. -/
theorem ComesToPause.elsewhere {places : List (Option Nat)} {p : Playback β} {w w' : World β}
    {kinds : List Event.Kind} (h : ComesToPause places (p, w) kinds)
    (hw : w'.registry.record? p.id = w.registry.record? p.id) :
    ComesToPause places (p, w') kinds := by
  cases h with
  | underWay h => exact .underWay h
  | paused hphase hpending hpoints haccounts hrecord =>
    exact .paused hphase hpending hpoints haccounts (hw ▸ hrecord)
  | ended hphase hpending hpoints hpast hrecord =>
    exact .ended hphase hpending hpoints hpast (hw ▸ hrecord)

theorem ComesToPause.holds {places : List (Option Nat)} {s : Playback β × World β}
    {kinds : List Event.Kind} (h : ComesToPause places s kinds) (hrun : s.1.phase = .running) :
    s.1.Holds s.1.pending places ∧ kinds = [] := by
  cases h with
  | underWay h => exact ⟨h, rfl⟩
  | paused hphase => simp [hphase] at hrun
  | ended hphase => simp [hphase] at hrun

/-! ### Asking for the pause -/

section

variable [Behaviour β]

/-- Every branch that waits is kept as a resume point or goes on waiting. -/
theorem perm_pausePoints (p : Playback β) (branches : List Branch) :
    ((branches.filterMap p.resumePoint?).map some ++
      (branches.filter fun b => (p.resumePoint? b).isNone).map p.finishPoint?).Perm
        (branches.map p.pausePoint?) := by
  induction branches with
  | nil => exact .refl _
  | cons b rest ih =>
    have hpoint : p.pausePoint? b = (p.resumePoint? b).or (p.finishPoint? b) := rfl
    rw [List.map_cons, hpoint]
    cases h : p.resumePoint? b with
    | none =>
      rw [List.filterMap_cons_none h, List.filter_cons_of_pos (by simp [h]), List.map_cons]
      exact List.perm_middle.trans (ih.cons _)
    | some point =>
      rw [List.filterMap_cons_some h, List.filter_cons_of_neg (by simp [h]), List.map_cons]
      exact ih.cons _

/-- Asking for a pause opens the account. -/
theorem holds_pausing {p : Playback β} (hrun : p.phase = .running) (hs : p.skipping = false) :
    p.pausing.Holds p.pausing.pending (p.pending.map p.pausePoint?) where
  running := hrun
  notSkipping := hs
  requested := rfl
  accounts := ⟨0, by
    rw [List.replicate_zero, List.append_nil]
    exact p.perm_pausePoints p.pending⟩

/-! ### The end of a turn -/

/-- A turn that has come to its end leaves the playback under a pause, paused or over. -/
theorem comesToPause_of_pausesTo {t u : Turn β} {places : List (Option Nat)}
    (h : t.PausesTo places u) (hover : u.ready = [] ∨ u.playback.phase ≠ .running)
    (hlive : t.world.registry.isLive t.playback.id = true) :
    ∃ log : Log β, log.RunsOnly ∧ t.world.Grows t.playback.id log u.world ∧
      ComesToPause places u.view log.events := by
  cases h with
  | going hu hholds =>
    obtain ⟨log, hevents, honly, hgrows⟩ := hu.only
    -- Nothing is ready any more, so what is under way is what waits.
    have hready : u.ready = [] := hover.resolve_right (not_not_intro hholds.running)
    rw [Turn.inFlight, hready, List.nil_append] at hholds
    refine ⟨log, honly, hgrows, ?_⟩
    rw [hevents]
    exact .underWay hholds
  | @paused u hu hholds hr hp hpoints =>
    obtain ⟨log, hevents, honly, hgrows⟩ := hu.only
    obtain ⟨past, hpast⟩ := hholds.accounts
    rw [List.map_nil, List.append_nil] at hpast
    have hid : u.playback.id = t.playback.id := congrArg Identity.id hu.calm.identity
    -- The pause itself tells its event and calls nobody.
    have hpause : u.world.Grows t.playback.id ⟨[.paused u.playback.resumePoints], [], []⟩
        u.endPause.world := by
      refine ⟨?_, u.calls_endPause.trans (List.append_nil _).symm, (List.append_nil _).symm⟩
      rw [← hid]
      exact World.eventsOf_emit_self _ _ _
    -- The record is there, and it is to hold what has been recorded.
    obtain ⟨record, hrecord, -⟩ := Registry.isLive_iff.mp hlive
    have hrecord' : u.endPause.world.registry.record? u.playback.id = some { record with
        running := false
        resumePoints := u.playback.resumePoints
        parameters := u.playback.parameters.snapshot } := by
      refine (Registry.record?_pause ..).trans ?_
      rw [if_pos rfl, hu.calm.world.registry, hid, hrecord]
      rfl
    refine ⟨_, honly.append (Log.runsOnly_nil _), hgrows.trans hpause, ?_⟩
    rw [Log.events_append, hevents, List.nil_append]
    exact .paused rfl hp hpoints ⟨past, hpast⟩ ⟨_, hrecord', rfl, rfl, rfl⟩
  | @ended u hu hholds hpoints =>
    obtain ⟨log, hevents, honly, hgrows⟩ := hu.only
    obtain ⟨past, hpast⟩ := hholds.accounts
    rw [hpoints, List.map_nil, List.map_nil, List.append_nil, List.nil_append] at hpast
    have hid : u.playback.id = t.playback.id := congrArg Identity.id hu.calm.identity
    -- The end tells its events and calls nobody.
    have hend : u.world.Grows t.playback.id ⟨closing u.playback.conversation, [], []⟩
        u.endRun.world := by
      refine ⟨?_, u.calls_endRun.trans (List.append_nil _).symm, ?_⟩
      · rw [← hid]
        exact (u.eventsOf_endRun _).trans (by rw [if_pos rfl])
      · rw [u.commands_endRun]
        exact (List.append_nil _).symm
    refine ⟨_, honly.append (Log.runsOnly_nil _), hgrows.trans hend, ?_⟩
    rw [Log.events_append, hevents, List.nil_append]
    refine .ended rfl rfl hpoints (fun place hplace => ?_) ?_
    · -- All that was accounted for leads nowhere.
      exact List.eq_of_mem_replicate (hpast.mem_iff.mpr hplace)
    · change u.endRun.world.registry.record? u.playback.id = none
      rw [u.endRun_world.2.2.2, Registry.record?_drop, if_pos rfl]

/-- The call that asks for the pause. -/
theorem comesToPause_pause {p : Playback β} {w : World β} (h : Reached p w)
    (hrun : p.phase = .running) :
    (w.since (p.pause w).2 p.id).RunsOnly ∧
      ComesToPause (p.pending.map p.pausePoint?) (p.pause w)
        (w.since (p.pause w).2 p.id).events := by
  have hsound := sound_of_reached h
  have hlive := h.isLive hrun
  have hholds := holds_pausing hrun hsound.notSkipping
  have hrefl : (⟨p.pausing, w, []⟩ : Turn β).RunsTo ⟨p.pausing, w, []⟩ :=
    Turn.runsTo_of_world_eq (.refl _) rfl
  rw [pause_of_playing w hrun hsound.notSkipping]
  split_ifs with hp
  · -- Nothing waits but what is recorded, so the pause takes effect at once.
    have hpoints := resumePoints_pausing_ne_nil (hsound.waits hrun) hp
    rw [hp] at hholds
    obtain ⟨log, honly, hgrows, hcomes⟩ := comesToPause_of_pausesTo
      (.paused hrefl hholds rfl hp hpoints) (Or.inl rfl) hlive
    have hsince : w.since (Turn.endPause ⟨p.pausing, w, []⟩).world p.id = log := hgrows.since_eq
    change (w.since (Turn.endPause ⟨p.pausing, w, []⟩).world p.id).RunsOnly ∧ _
    rw [Turn.view, hsince]
    exact ⟨honly, hcomes⟩
  · -- Something still waits, and nobody has heard of the pause yet.
    rw [(World.Grows.refl w p.id).since_eq]
    exact ⟨Log.runsOnly_nil [], .underWay hholds⟩

/-! ### Update after update -/

omit [Behaviour β] in
/-- The branches that are due are under way as much as those that go on waiting. -/
theorem Holds.waiting {p : Playback β} {places : List (Option Nat)}
    (h : p.Holds p.pending places) (w : World β) :
    (p.waiting w).Holds (p.due w ++ (p.waiting w).pending) places := by
  have hsame : (p.waiting w).Holds p.pending places := h.congr rfl rfl rfl rfl rfl
  exact hsame.perm (p.perm_due_append_waiting w).symm (.refl _)

/-- An update under a pause returns, given enough fuel. -/
theorem Holds.exists_update {p : Playback β} {places : List (Option Nat)}
    (h : p.Holds p.pending places) (w : World β) : ∃ fuel r, p.update fuel w = some r := by
  refine Playback.exists_update fun _ _ => ?_
  obtain ⟨r, hr⟩ := Turn.exists_run_of_holds
    (t := { playback := p.waiting w, world := w, ready := p.due w }) (h.waiting w) (Nat.le_refl _)
  exact ⟨_, r, hr⟩

/-- Updates bring the pause about. -/
theorem comesToPause_of_updated {s s' : Playback β × World β} {rounds : Nat} {log : Log β}
    {places : List (Option Nat)} {kinds : List Event.Kind} (h : Reached s.1 s.2)
    (hs : ComesToPause places s kinds) (hu : Updated s rounds log s') :
    log.RunsOnly ∧ ComesToPause places s' (kinds ++ log.events) := by
  induction hu with
  | refl =>
    refine ⟨Log.runsOnly_nil [], ?_⟩
    rw [List.append_nil]
    exact hs
  | elsewhere _ hw ih => exact ⟨ih.1, ih.2.elsewhere hw⟩
  | @update rounds log p w hu hscene fuel r hr ih =>
    obtain ⟨honly, hcomes⟩ := ih
    have hreached := h.updated hu
    rcases hreached.stands.update_cases hscene hr with ⟨-, rfl⟩ | ⟨-, hrun, hturn⟩
    · -- No branch is due, or none is left.
      rw [(World.Grows.refl w p.id).since_eq]
      refine ⟨honly.append (Log.runsOnly_nil []), ?_⟩
      rw [Log.events_append, ← List.append_assoc, List.append_nil]
      exact hcomes
    · obtain ⟨hholds, hnone⟩ := hcomes.holds hrun
      have hlive := hreached.isLive hrun
      obtain ⟨u, hpauses, rfl, hover⟩ := Turn.pausesTo_run
        (t := { playback := p.waiting w, world := w, ready := p.due w }) (hholds.waiting w) hturn
      obtain ⟨more, hmore, hgrows, hnext⟩ := comesToPause_of_pausesTo hpauses hover hlive
      have hsince : w.since u.world p.id = more := hgrows.since_eq
      rw [Turn.view, hsince]
      refine ⟨honly.append hmore, ?_⟩
      rw [Log.events_append, ← List.append_assoc, hnone, List.nil_append]
      exact hnext

/-! ### The pause from its request to its end -/

/-- Whatever branches wait when a pause is asked for, and however many updates later: every one of
them is still under way, or has left one resume point, or has run past the last node. Behaviours
have run, but none was asked for an output and no other graph has been started. The playback runs
as long as some branch is under way; then it is paused with what there is to go on with, or over if
there is nothing. As long as it runs the next update returns. -/
theorem pause_conserves {p : Playback β} {w : World β} (h : Reached p w) (hrun : p.phase = .running)
    {rounds : Nat} {log : Log β} {s : Playback β × World β}
    (hu : Updated (p.pause w) rounds log s) :
    (w.since (p.pause w).2 p.id ++ log).RunsOnly ∧
      ComesToPause (p.pending.map p.pausePoint?) s (w.since (p.pause w).2 p.id ++ log).events ∧
      (s.1.phase = .running ↔ s.1.pending ≠ []) ∧
      ∀ w', ∃ fuel r, s.1.update fuel w' = some r := by
  obtain ⟨honly, hcomes⟩ := comesToPause_pause h hrun
  have hpaused : Reached (p.pause w).1 (p.pause w).2 := h.pause
  obtain ⟨honly', hcomes'⟩ := comesToPause_of_updated hpaused hcomes hu
  have hsound := sound_of_reached (hpaused.updated hu)
  refine ⟨honly.append honly', hcomes', ⟨hsound.waits, fun hp => ?_⟩, fun w' => ?_⟩
  · by_contra hstopped
    exact hp (hsound.rests hstopped).1
  · by_cases hrun' : s.1.phase = .running
    · exact (hcomes'.holds hrun').1.exists_update w'
    · exact ⟨0, _, update_of_nothing_waiting 0 w' (Or.inl hrun')⟩

end

/-- Two branches that start together and wait, the second one longer. -/
def forked : Playback Builtin where
  id := 0
  graph := "fork"
  nodes :=
    [{ id := "", kind := "parallel", title := "", enabled := true, endings := [.goto 1, .goto 2],
       behaviour := some (.parallel ⟨2⟩) },
     { id := "", kind := "wait", title := "", enabled := true, endings := [.stop],
       behaviour := some (.wait ⟨1, none⟩) },
     { id := "", kind := "wait", title := "", enabled := true, endings := [.stop],
       behaviour := some (.wait ⟨2, none⟩) }]
  parameters := ⟨[]⟩
  settings := {}

theorem isNew_forked : forked.IsNew := ⟨rfl, rfl, rfl, rfl, by simp [forked]⟩

/-- Both waits are over before the pause takes effect, which is two seconds after it was asked
for. -/
theorem pause_conserves_forked :
    ∃ r, forked.play 5 {} 0 false = some r ∧ r.1.phase = .running ∧
      ∃ log s, Updated (r.1.pause r.2) 2 log s ∧ s.1.resumePoints = [1, 2] ∧
        ComesToPause (r.1.pending.map r.1.pausePoint?) s
          (r.2.since (r.1.pause r.2).2 r.1.id ++ log).events := by
  have hruns : ((forked.play 5 {} 0 false).bind fun r =>
      ((r.1.pause r.2).1.update 5 (r.1.pause r.2).2.later).bind fun u =>
        (u.1.update 5 u.2.later).map fun v =>
          (r.1.phase, [(r.1.pause r.2).2.sceneLoading, u.2.sceneLoading],
            [((r.1.pause r.2).1.due (r.1.pause r.2).2.later).length, (u.1.due u.2.later).length],
            v.1.resumePoints)) =
      some (.running, [false, false], [1, 1], [1, 2]) := by
    decide +kernel
  simp only [Option.bind_eq_some_iff, Option.map_eq_some_iff, Prod.mk.injEq,
    List.cons.injEq, and_true] at hruns
  obtain ⟨r, hr, u, hu, v, hv, hrun, ⟨hscene, hscene'⟩, ⟨hdue, hdue'⟩, hpoints⟩ := hruns
  have hreached : Reached r.1 r.2 := Reached.play (.new isNew_forked {}) hr
  have hfirst := Updated.refl.later hscene hu (List.ne_nil_of_length_pos (by omega))
  have hsecond := hfirst.later hscene' hv (List.ne_nil_of_length_pos (by omega))
  exact ⟨r, hr, hrun, _, v, hsecond, hpoints, (pause_conserves hreached hrun hsecond).2.1⟩

end Playback

end Cutscene
