import Cutscene.Proofs.Playback.Operation

/-!
# A playback and its record

What the registry says of a playback and what the playback says of itself are changed side by side.
`Playback.Agrees` says that they do not contradict each other; every passage keeps it so
(`Agrees.passage`), and with it every operation (`Agrees.perform`). The records of other playbacks
stay as they are (`record?_perform`), and no playback gets a second record
(`nodup_attached_perform`).
-/

namespace Cutscene.Playback

variable {β : Type}

/-- The registry says the same of a playback as the playback itself. -/
structure Agrees (p : Playback β) (reg : Registry) : Prop where
  graph : ∀ r, reg.record? p.id = some r → r.graph = p.graph
  running : p.phase = .running ↔ ∃ r, reg.record? p.id = some r ∧ r.running = true
  paused : p.phase = .paused → ∃ r, reg.record? p.id = some r ∧ r.resumePoints = p.resumePoints
  finished : p.phase = .finished → reg.record? p.id = none

theorem Agrees.isLive_iff {p : Playback β} {reg : Registry} (h : p.Agrees reg) :
    reg.isLive p.id = true ↔ p.phase = .running := by
  rw [Registry.isLive_iff, h.running]

/-- A playback that is not running agrees with having no record, unless it is paused. -/
theorem agrees_of_record?_eq_none {p : Playback β} {reg : Registry} (h : reg.record? p.id = none)
    (hrun : p.phase ≠ .running) (hpaused : p.phase ≠ .paused) : p.Agrees reg where
  graph r hr := by simp [h] at hr
  running := ⟨fun hr => absurd hr hrun, by rintro ⟨r, hr, -⟩; simp [h] at hr⟩
  paused hp := absurd hp hpaused
  finished _ := h

/-- Only its own record, its graph, its phase and its resume points matter to the agreement. -/
theorem Agrees.congr {p p' : Playback β} {reg reg' : Registry} (h : p.Agrees reg)
    (hid : p'.id = p.id) (hgraph : p'.graph = p.graph) (hphase : p'.phase = p.phase)
    (hpoints : p.phase = .paused → p'.resumePoints = p.resumePoints)
    (hr : reg'.record? p.id = reg.record? p.id) : p'.Agrees reg' where
  graph r hrecord := by
    rw [hid, hr] at hrecord
    exact (h.graph r hrecord).trans hgraph.symm
  running := by
    rw [hid, hr, hphase]
    exact h.running
  paused hp := by
    rw [hphase] at hp
    rw [hid, hr, hpoints hp]
    exact h.paused hp
  finished hf := by
    rw [hphase] at hf
    rw [hid, hr]
    exact h.finished hf

/-! ### One passage -/

theorem record?_of_passage {p p' : Playback β} {reg reg' : Registry} {kinds : List Event.Kind}
    (h : Passage p p' reg reg' kinds) {id : Nat} (hid : id ≠ p.id) :
    reg'.record? id = reg.record? id := by
  cases h with
  | calm => rfl
  | entered start queue hphase ho => rw [Registry.record?_enter, if_neg hid]
  | paused parameters hphase hphase' => rw [Registry.record?_pause, if_neg hid]
  | ended hphase hphase' => rw [Registry.record?_drop, if_neg hid]
  | killed hphase' => rw [Registry.record?_drop, if_neg hid]
  | lapsed => rfl

theorem nodup_attached_of_passage {p p' : Playback β} {reg reg' : Registry}
    {kinds : List Event.Kind} (h : Passage p p' reg reg' kinds) (hn : reg.attached.Nodup) :
    reg'.attached.Nodup := by
  cases h with
  | calm => exact hn
  | entered start queue hphase ho =>
    -- Entering adds a record only for a playback that has none.
    rw [Registry.attached_enter]
    split_ifs with hmem
    · exact hn
    · rw [List.nodup_append]
      refine ⟨hn, List.nodup_singleton _, ?_⟩
      intro a ha b hb
      rw [List.mem_singleton.mp hb]
      rintro rfl
      exact hmem ha
  | paused parameters hphase hphase' =>
    rw [Registry.attached_pause]
    exact hn
  | ended hphase hphase' => exact hn.sublist (Registry.attached_drop_sublist _ _)
  | killed hphase' => exact hn.sublist (Registry.attached_drop_sublist _ _)
  | lapsed => exact hn

theorem Agrees.passage {p p' : Playback β} {reg reg' : Registry} {kinds : List Event.Kind}
    (ha : p.Agrees reg) (hi : p'.identity = p.identity) (h : Passage p p' reg reg' kinds) :
    p'.Agrees reg' := by
  have hid : p'.id = p.id := congrArg Identity.id hi
  have hgraph : p'.graph = p.graph := congrArg Identity.graph hi
  cases h with
  | calm hphase hpoints => exact ha.congr hid hgraph hphase hpoints rfl
  | entered start queue hphase ho =>
    have hrecord : (reg.enter p.id p.graph start queue p.conversation).record? p'.id =
        some (reg.startedRecord p.id p.graph start queue p.conversation) :=
      (Registry.record?_enter ..).trans (if_pos hid)
    refine ⟨fun r hr => ?_, ⟨fun _ => ⟨_, hrecord, rfl⟩, fun _ => hphase⟩, ?_, ?_⟩
    · rw [hrecord] at hr
      obtain rfl := Option.some.inj hr
      rw [hgraph]
      -- An old record keeps its graph, which was the right one.
      unfold Registry.startedRecord
      cases hold : reg.record? p.id with
      | none => rfl
      | some q => exact ha.graph q hold
    · simp [hphase]
    · simp [hphase]
  | paused parameters hphase hphase' =>
    obtain ⟨q, hq, -⟩ := ha.running.mp hphase
    have hrecord : (reg.pause p.id p'.resumePoints parameters.snapshot).record? p'.id =
        some { q with
          running := false, resumePoints := p'.resumePoints
          parameters := parameters.snapshot } := by
      rw [Registry.record?_pause, if_pos hid, hq]
      rfl
    refine ⟨fun r hr => ?_, ⟨fun hrun => ?_, ?_⟩, fun _ => ⟨_, hrecord, rfl⟩, ?_⟩
    · rw [hrecord] at hr
      obtain rfl := Option.some.inj hr
      exact (ha.graph q hq).trans hgraph.symm
    · simp [hphase'] at hrun
    · rintro ⟨r, hr, hrun⟩
      rw [hrecord] at hr
      obtain rfl := Option.some.inj hr
      simp at hrun
    · simp [hphase']
  | ended hphase hphase' =>
    refine agrees_of_record?_eq_none ?_ (by simp [hphase']) (by simp [hphase'])
    rw [Registry.record?_drop, if_pos hid]
  | killed hphase' =>
    refine agrees_of_record?_eq_none ?_ (by simp [hphase']) (by simp [hphase'])
    rw [Registry.record?_drop, if_pos hid]
  | lapsed hphase hlive hphase' =>
    -- A running playback that agrees with its record has not lapsed.
    have hrun := ha.isLive_iff.mpr hphase
    simp [hlive] at hrun

/-- A record that is reset agrees with the playback that is halted. -/
theorem Agrees.halt {p : Playback β} {reg : Registry} (ha : p.Agrees reg) (unqueue : Bool)
    (hr : reg.record? p.id ≠ none) : p.halt.Agrees (reg.modify p.id (·.reset unqueue)) := by
  have hid : p.halt.id = p.id := congrArg Identity.id p.identity_halt
  obtain ⟨q, hq⟩ := Option.ne_none_iff_exists'.mp hr
  have hrecord : (reg.modify p.id (·.reset unqueue)).record? p.halt.id =
      some (q.reset unqueue) := by
    rw [Registry.record?_reset, if_pos hid, hq]
    rfl
  refine ⟨fun r hrr => ?_, ⟨fun hrun => absurd hrun p.halt_phase_ne_running, ?_⟩,
    fun hp => ?_, fun hf => ?_⟩
  · obtain rfl := Option.some.inj (hrecord.symm.trans hrr)
    exact (ha.graph q hq).trans (congrArg Identity.graph p.identity_halt).symm
  · rintro ⟨r, hrr, hrun⟩
    obtain rfl := Option.some.inj (hrecord.symm.trans hrr)
    simp [Record.reset] at hrun
  · rw [halt_phase] at hp
    split_ifs at hp
    obtain ⟨r, hrr, hpoints⟩ := ha.paused hp
    obtain rfl := Option.some.inj (hq.symm.trans hrr)
    exact ⟨_, hrecord, hpoints.trans p.halt_resumePoints.symm⟩
  · rw [halt_phase] at hf
    split_ifs at hf
    exact absurd (ha.finished hf) hr

/-! ### Many stages -/

theorem record?_of_stages {s s' : Playback β × World β} (h : Stages s s') {id : Nat}
    (hid : id ≠ s.1.id) : s'.2.registry.record? id = s.2.registry.record? id := by
  induction h with
  | refl => rfl
  | @tail u v hs hstage ih =>
    obtain ⟨kinds, hp, -⟩ := hstage.passage
    have hne : id ≠ u.1.id := by
      rw [Stages.id_eq hs]
      exact hid
    rw [record?_of_passage hp hne, ih]

theorem nodup_attached_of_stages {s s' : Playback β × World β} (h : Stages s s')
    (hn : s.2.registry.attached.Nodup) : s'.2.registry.attached.Nodup := by
  induction h with
  | refl => exact hn
  | tail _ hstage ih =>
    obtain ⟨kinds, hp, -⟩ := hstage.passage
    exact nodup_attached_of_passage hp ih

theorem Agrees.stages {s s' : Playback β × World β} (ha : s.1.Agrees s.2.registry)
    (h : Stages s s') : s'.1.Agrees s'.2.registry := by
  induction h with
  | refl => exact ha
  | tail _ hstage ih =>
    obtain ⟨kinds, hp, -⟩ := hstage.passage
    exact ih.passage hstage.identity hp

/-! ### Operations -/

variable [Behaviour β] {fuel : Nat} {p : Playback β} {w : World β} {op : Operation}
  {r : Playback β × World β}

theorem identity_perform (h : p.perform fuel w op = some r) : r.1.identity = p.identity := by
  rcases perform_cases h with hs | ⟨-, unqueue, rfl⟩
  · exact hs.identity_eq
  · exact p.identity_halt

theorem record?_perform (h : p.perform fuel w op = some r) {id : Nat} (hid : id ≠ p.id) :
    r.2.registry.record? id = w.registry.record? id := by
  rcases perform_cases h with hs | ⟨-, unqueue, rfl⟩
  · exact record?_of_stages hs hid
  · rw [Registry.record?_reset, if_neg hid]

theorem nodup_attached_perform (h : p.perform fuel w op = some r)
    (hn : w.registry.attached.Nodup) : r.2.registry.attached.Nodup := by
  rcases perform_cases h with hs | ⟨-, unqueue, rfl⟩
  · exact nodup_attached_of_stages hs hn
  · rw [Registry.attached_reset]
    exact hn

/-- No operation sets a playback and its record at odds. -/
theorem Agrees.perform (ha : p.Agrees w.registry) (h : p.perform fuel w op = some r) :
    r.1.Agrees r.2.registry := by
  rcases perform_cases h with hs | ⟨hne, unqueue, rfl⟩
  · exact Agrees.stages (s := (p, w)) ha hs
  · exact ha.halt unqueue hne

end Cutscene.Playback
