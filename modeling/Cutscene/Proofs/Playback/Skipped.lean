import Cutscene.Proofs.Playback.SkipBound
import Cutscene.Proofs.Playback.Links
import Cutscene.Proofs.Playback.Unseen

/-!
# What a skip leaves

However a skip comes to its end, the playback is finished, its record is gone and the others are
what they were, and observers have heard of one skip, unless there was no node to start from:
`Playback.skip_leaves`. The turn of a skip is calm until the run is over (`Turn.Changes.skips`).
What else is in the registry, and where the record was, the skip does not see
(`skip_withRegistry`).
-/

namespace Cutscene

variable {β : Type}

/-- A playback is skipped. -/
def Event.Kind.isSkip : Event.Kind → Bool
  | .skipped _ => true
  | _ => false

theorem countP_isSkip_closing (conversation : Option String) :
    (closing conversation).countP (·.isSkip) = 0 := by
  cases conversation <;> rfl

namespace Turn

/-- A turn has come to its end since another one: the playback is finished and has no record any
more. -/
structure Closes (t u : Turn β) : Prop where
  finished : u.playback.phase = .finished
  registry : u.world.registry = t.world.registry.drop t.playback.id
  events : ∃ kinds, u.world.eventsOf t.playback.id = t.world.eventsOf t.playback.id ++ kinds ∧
    kinds.countP (·.isSkip) = 0

theorem Calm.closes {t u v : Turn β} (h : t.Calm u) (hc : u.Closes v) : t.Closes v where
  finished := hc.finished
  registry := by
    have hid : u.playback.id = t.playback.id := congrArg Playback.Identity.id h.identity
    rw [hc.registry, hid, h.world.registry]
  events := by
    have hid : u.playback.id = t.playback.id := congrArg Playback.Identity.id h.identity
    obtain ⟨kinds, hevents, hskip⟩ := hc.events
    rw [hid, h.world.events] at hevents
    exact ⟨kinds, hevents, hskip⟩

theorem closes_endRun (t : Turn β) : t.Closes t.endRun where
  finished := rfl
  registry := t.endRun_world.2.2.2
  events := by
    refine ⟨closing t.playback.conversation, ?_, countP_isSkip_closing _⟩
    rw [eventsOf_endRun, if_pos rfl]

theorem closes_kill (t : Turn β) : t.Closes { t with
    playback := (t.playback.kill t.world).1, world := (t.playback.kill t.world).2 } where
  finished := rfl
  registry := t.playback.registry_kill t.world
  events := by
    refine ⟨if t.playback.isActive then [.ended true] else [], t.playback.eventsOf_kill t.world, ?_⟩
    split_ifs <;> rfl

variable [Behaviour β]

/-- Change by change, a skip stays calm until it is over. -/
theorem Changes.skips {t u : Turn β} (h : t.Changes u)
    (hp : t.playback.pauseRequested = false) : t.Calm u ∨ t.Closes u := by
  refine h.invariant (I := fun u => t.Calm u ∨ t.Closes u) (Or.inl (.refl t))
    fun u v hu hrun hchange => ?_
  rcases hu with hcalm | hover
  · rcases hchange.calm_or_stops with ⟨hstep, -⟩ | rfl | ⟨hpause, -⟩ | ⟨-, rfl⟩
    · exact Or.inl (hcalm.trans hstep)
    · exact Or.inr (hcalm.closes u.closes_endRun)
    · rw [hcalm.pauseRequested, hp] at hpause
      exact absurd hpause Bool.false_ne_true
    · exact Or.inr (hcalm.closes u.closes_kill)
  · simp [hover.finished] at hrun

end Turn

namespace Playback

/-- What a skip from a node leaves. -/
structure SkipLeaves (p : Playback β) (w : World β) (start : Nat) (r : Playback β × World β) :
    Prop where
  finished : r.1.phase = .finished
  registry : r.2.registry = w.registry.drop p.id
  skips : (w.news r.2 p.id).countP (·.isSkip) = if start < p.nodes.length then 1 else 0

variable [Behaviour β] {fuel start : Nat} {p : Playback β} {w : World β}
  {r : Playback β × World β}

omit [Behaviour β] in
theorem straight_skipTurn (p : Playback β) (w : World β) (start : Nat) :
    (p.skipTurn w start).Straight := by
  intro _ b hb
  rw [List.mem_singleton.mp hb]

/-- A skip that begins at a node is a turn that comes to its end. -/
theorem closes_skipTurn (h : (p.skipTurn w start).run fuel = some r) :
    ∃ u, (p.skipTurn w start).Closes u ∧ r = u.view := by
  have hsound := (p.working_skipTurn w start).sound (Or.inl (List.cons_ne_nil _ _))
  have hend := Turn.sound_run hsound h
  obtain ⟨u, hchanges, rfl, -⟩ := Turn.changes_run (p.straight_skipTurn w start) h
  rcases hchanges.skips rfl with hcalm | hover
  · -- A turn that still skips is not over.
    have hskipping : u.playback.skipping = true := hcalm.skipping
    have hnot : u.playback.skipping = false := hend.notSkipping
    simp [hnot] at hskipping
  · exact ⟨u, hover, rfl⟩

omit [Behaviour β] in
theorem registry_skipTurn (p : Playback β) (w : World β) (start : Nat) :
    (p.skipTurn w start).world.registry =
      w.registry.enter p.id p.graph start false p.conversation := by
  have hidentity := p.identity_skippingFrom start
  have hid : (p.skippingFrom start).id = p.id := congrArg Identity.id hidentity
  have hgraph : (p.skippingFrom start).graph = p.graph := congrArg Identity.graph hidentity
  have hconversation : (p.skippingFrom start).conversation = p.conversation :=
    congrArg Identity.conversation hidentity
  unfold skipTurn
  dsimp only
  split_ifs <;> simp only [emit, World.note, entered, hid, hgraph, hconversation] <;> rfl

/-- With enough fuel for its hops a skip comes to its end, from whatever node it starts. -/
theorem exists_skip_of_lt (p : Playback β) (w : World β) (start : Nat)
    (hfuel : p.nodes.length * max w.config.hopFactor 1 < fuel)
    (hlimit : p.nodes.length * max w.config.hopFactor 1 < UInt64.size) :
    ∃ r, p.skip fuel w start = some r := by
  by_cases hstart : start < p.nodes.length
  · obtain ⟨r, hr, -⟩ := p.exists_skip w hstart hlimit
    exact ⟨r, hr fuel hfuel⟩
  · exact ⟨p.kill w, by rw [skip_eq, if_pos (Nat.le_of_not_lt hstart)]⟩

/-- However a skip comes to its end, the playback is finished and its record is gone. -/
theorem skip_leaves (h : p.skip fuel w start = some r) : p.SkipLeaves w start r := by
  rw [skip_eq] at h
  split_ifs at h with hstart
  · -- There is no such node, and the playback is killed.
    obtain rfl := Option.some.inj h
    refine ⟨rfl, p.registry_kill w, ?_⟩
    rw [World.news_of_eventsOf_eq_append (p.eventsOf_kill w), if_neg (Nat.not_lt.mpr hstart)]
    split_ifs <;> rfl
  · obtain ⟨u, hover, rfl⟩ := closes_skipTurn h
    have hid : (p.skipTurn w start).playback.id = p.id := p.skippingFrom_id start
    obtain ⟨kinds, hevents, hskip⟩ := hover.events
    rw [hid, eventsOf_skipTurn, List.append_assoc] at hevents
    refine ⟨hover.finished, ?_, ?_⟩
    · -- The record that the skip entered is gone again.
      refine hover.registry.trans ?_
      rw [hid, registry_skipTurn]
      exact Registry.drop_enter ..
    · -- The skip that it begins with is the only one: what closes a run is none.
      change (w.news u.world p.id).countP _ = _
      rw [World.news_of_eventsOf_eq_append hevents, List.countP_append, hskip,
        if_pos (Nat.lt_of_not_le hstart)]
      split_ifs <;> rfl

/-- Observers hear of one skip at most, and of no other playback. -/
theorem eventsOf_skip (h : p.skip fuel w start = some r) (id : Nat) :
    ∃ kinds, r.2.eventsOf id = w.eventsOf id ++ kinds ∧
      kinds.countP (·.isSkip) = if p.id = id ∧ start < p.nodes.length then 1 else 0 := by
  obtain ⟨kinds, hheard⟩ := heard_of_stages (stages_skip h)
  refine ⟨_, hheard.events id, ?_⟩
  dsimp only
  by_cases hid : p.id = id
  · have hskips := (skip_leaves h).skips
    have hevents := hheard.events p.id
    rw [if_pos rfl] at hevents
    rw [World.news_of_eventsOf_eq_append hevents] at hskips
    rw [if_pos hid, hskips]
    simp [hid]
  · simp [hid]

/-- A skip sees of the registry which graphs run besides its own, and no more. -/
theorem skip_withRegistry (fuel start : Nat) (hl : p.Linked w.registry)
    (hn : w.registry.attached.Nodup) {reg : Registry} (hl' : p.Linked reg)
    (hn' : reg.attached.Nodup)
    (hg : (reg.drop p.id).isGraphRunning = (w.registry.drop p.id).isGraphRunning) :
    p.skip fuel (w.withRegistry reg) start =
      (p.skip fuel w start).map fun r => (r.1, r.2.withRegistry (reg.drop p.id)) := by
  rw [skip_eq, skip_eq]
  by_cases hstart : p.nodes.length ≤ start
  · rw [if_pos hstart, if_pos hstart, kill_withRegistry]
    rfl
  · rw [if_neg hstart, if_neg hstart]
    have hunseen : (p.skipTurn w start).Unseen (fun _ => True) []
        (p.skipTurn (w.withRegistry reg) start) := by
      -- Both skips begin alike but for the registry.
      refine ⟨?_, fun _ => Registry.blends_of_eq _ (funext fun name => ?_)⟩
      · unfold Turn.within
        rw [World.within_nil]
        unfold skipTurn
        dsimp only
        split_ifs <;> rfl
      · rw [registry_skipTurn, registry_skipTurn, Registry.isGraphRunning_enter hn hl.graph]
        refine (Registry.isGraphRunning_enter hn' hl'.graph ..).trans ?_
        exact congrArg (decide (p.graph = name) || · name) hg
    obtain ⟨registry, hrun⟩ :=
      hunseen.run enclosed_true (fun _ _ _ _ => trivial) (p.straight_skipTurn w start) fuel
    simp only [World.within_nil] at hrun
    rw [hrun]
    cases hr : (p.skipTurn w start).run fuel with
    | none => rfl
    | some r =>
      rw [hr] at hrun
      have hend : p.skip fuel (w.withRegistry reg) start =
          some (r.1, r.2.withRegistry registry) := by
        rw [skip_eq, if_neg hstart]
        exact hrun
      -- Whatever the registry was, the skip leaves it without the record.
      have hregistry : registry = reg.drop p.id := (skip_leaves hend).registry
      rw [hregistry]

end Playback

end Cutscene
