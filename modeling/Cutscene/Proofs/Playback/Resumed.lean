import Cutscene.Proofs.Playback.Change
import Cutscene.Proofs.Playback.Hearing

/-!
# What a resumed run leaves

A run that is resumed goes on in a turn that nobody has asked to pause and in which nothing is
skipped, so it stays calm unless the run comes to its end by itself (`Turn.Changes.plays`).
`Playback.resume_leaves` says what is heard of it: that it is resumed, once, and before that the end
of another run if one was going on and had to be killed.
-/

namespace Cutscene

variable {β : Type} [Behaviour β]

/-- Change by change, a turn stays calm until the run comes to its end, if nothing is skipped and no
pause is asked for. -/
theorem Turn.Changes.plays {t u : Turn β} (h : t.Changes u)
    (hpause : t.playback.pauseRequested = false) (hskip : t.playback.skipping = false) :
    t.Calm u ∨ ∃ v, t.Calm v ∧ u = v.endRun := by
  refine h.invariant (I := fun u => t.Calm u ∨ ∃ v, t.Calm v ∧ u = v.endRun) (Or.inl (.refl t))
    fun u v hu hrun hchange => ?_
  rcases hu with hcalm | ⟨w, -, rfl⟩
  · rcases hchange.calm_or_stops with ⟨hstep, -⟩ | rfl | ⟨hpaused, -⟩ | ⟨hskipping, -⟩
    · exact Or.inl (hcalm.trans hstep)
    · exact Or.inr ⟨u, hcalm, rfl⟩
    · rw [hcalm.pauseRequested, hpause] at hpaused
      exact absurd hpaused Bool.false_ne_true
    · rw [hcalm.skipping, hskip] at hskipping
      exact absurd hskipping Bool.false_ne_true
  · simp [endRun] at hrun

namespace Playback

/-- What resuming a run leaves. -/
structure ResumeLeaves (p : Playback β) (w : World β) (r : Playback β × World β) : Prop where
  /-- What is heard: the end of the run that was going on, if there was one, and that the run is
  resumed. It may come to its end by itself. -/
  events : ∃ kinds, (kinds = [] ∨ kinds = closing p.conversation) ∧ r.2.eventsOf p.id =
    w.eventsOf p.id ++ (if p.phase = .running then [.ended true] else []) ++ .resumed :: kinds
  /-- If there is a record, it is of a run. -/
  running : ∀ record, r.2.registry.record? p.id = some record → record.running = true

omit [Behaviour β] in
/-- Of the events that there may be, one is that the run is resumed, and one that another was killed
if there was one. -/
theorem ResumeLeaves.counts {p : Playback β} {w : World β} {r : Playback β × World β}
    (h : p.ResumeLeaves w r) : ∃ kinds, r.2.eventsOf p.id = w.eventsOf p.id ++ kinds ∧
      kinds.count .resumed = 1 ∧
      kinds.count (.ended true) = if p.phase = .running then 1 else 0 := by
  obtain ⟨kinds, hkinds, hevents⟩ := h.events
  rw [List.append_assoc] at hevents
  refine ⟨_, hevents, ?_⟩
  have hnone : kinds.count .resumed = 0 ∧ kinds.count (.ended true) = 0 := by
    rcases hkinds with rfl | rfl
    · exact ⟨rfl, rfl⟩
    · cases p.conversation <;> exact ⟨rfl, rfl⟩
  split_ifs <;> simp [hnone]

variable {fuel start : Nat} {p : Playback β} {w : World β} {points : List Nat}
  {parameters : String} {rerun : Bool} {r : Playback β × World β}

omit [Behaviour β] in
theorem eventsOf_interrupted (p : Playback β) (w : World β) :
    (p.interrupted w).2.eventsOf p.id =
      w.eventsOf p.id ++ if p.phase = .running then [.ended true] else [] := by
  unfold interrupted
  split_ifs with h
  · have hactive : p.isActive = true := by simp [isActive, h]
    rw [eventsOf_kill, if_pos hactive]
    exact congrArg (· ++ _) ((w.quiet_notice _).events p.id)
  · exact (List.append_nil _).symm

omit [Behaviour β] in
/-- The turn begins with the run entered and told of. -/
theorem resumeTurn_leaves (p : Playback β) (w : World β) (start : Nat) (points : List Nat)
    (parameters : String) (rerun : Bool) :
    (p.resumeTurn w start points parameters rerun).world.eventsOf p.id =
        w.eventsOf p.id ++ [.resumed] ∧
      ∀ record, (p.resumeTurn w start points parameters rerun).world.registry.record? p.id =
        some record → record.running = true := by
  -- Notices are given before and after.
  have hbefore := w.quiet_noticeAll (p.restored parameters).2
  let q := p.revived start (p.restored parameters).1
  let w' := q.emit .resumed (q.entered (w.noticeAll (p.restored parameters).2) p.isSkippable)
  have hafter : w'.Quiet (p.resumeTurn w start points parameters rerun).world :=
    w'.quiet_noticeAll (q.validPoints points).2
  constructor
  · rw [hafter.events]
    refine (World.eventsOf_emit_self q .resumed _).trans ?_
    exact congrArg (· ++ _) (hbefore.events p.id)
  · intro record hrecord
    rw [hafter.registry] at hrecord
    have hentered : w'.registry.record? q.id = _ := (Registry.record?_enter ..).trans (if_pos rfl)
    obtain rfl := Option.some.inj (hentered.symm.trans hrecord)
    rfl

/-- Whatever the playback was doing, a run that is resumed leaves this. -/
theorem resume_leaves (hpoints : points ≠ [])
    (h : p.resume fuel w start points parameters rerun = some r) : p.ResumeLeaves w r := by
  have hid : (p.interrupted w).1.id = p.id := (p.interrupted_id w).1
  obtain ⟨hevents, hrunning⟩ :=
    (p.interrupted w).1.resumeTurn_leaves (p.interrupted w).2 start points parameters rerun
  rw [hid] at hevents hrunning
  rw [eventsOf_interrupted] at hevents
  have hconversation : (p.interrupted w).1.conversation = p.conversation := by
    unfold interrupted
    split_ifs <;> rfl
  -- What a turn leaves that has come to its end, or has stayed calm.
  have hended : ∀ v, ((p.interrupted w).1.resumeTurn (p.interrupted w).2 start points parameters
      rerun).Calm v → p.ResumeLeaves w v.endRun.view := by
    intro v hcalm
    have hvid : v.playback.id = p.id := (congrArg Identity.id hcalm.identity).trans hid
    have hvconversation : v.playback.conversation = p.conversation :=
      (congrArg Identity.conversation hcalm.identity).trans hconversation
    refine ⟨⟨closing p.conversation, Or.inr rfl, ?_⟩, fun record hrecord => ?_⟩
    · change v.endRun.world.eventsOf p.id = _
      rw [v.eventsOf_endRun, if_pos hvid, hvconversation, hcalm.world.events, hevents,
        List.append_assoc, List.singleton_append]
    · change v.endRun.world.registry.record? p.id = _ at hrecord
      rw [v.endRun_world.2.2.2, hvid, Registry.record?_drop, if_pos rfl] at hrecord
      exact absurd hrecord (by simp)
  rw [resume_of_ne_nil fuel p w start hpoints] at h
  dsimp only at h
  split_ifs at h
  · -- None of the resume points is a node.
    obtain rfl := Option.some.inj h
    exact hended _ (.refl _)
  · have hstraight : ((p.interrupted w).1.resumeTurn (p.interrupted w).2 start points parameters
        rerun).Straight := fun hskip => by cases hskip
    obtain ⟨u, hchanges, rfl, -⟩ := Turn.changes_run hstraight h
    rcases hchanges.plays rfl rfl with hcalm | ⟨v, hcalm, rfl⟩
    · refine ⟨⟨[], Or.inl rfl, ?_⟩, fun record hrecord => hrunning record ?_⟩
      · change u.world.eventsOf p.id = _
        rw [hcalm.world.events, hevents]
      · rw [← hcalm.world.registry]
        exact hrecord
    · exact hended v hcalm

end Playback

end Cutscene
