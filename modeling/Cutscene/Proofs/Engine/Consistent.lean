import Cutscene.Behaviour.Builtin
import Cutscene.Proofs.Engine.Coherent
import Cutscene.Proofs.Engine.Settled

/-!
# Engines between operations

What a host can tell of an engine that it can come by: `Engine.Consistent` says how the registry
and the instances stand to each other, and that no instance is ever told that it is not registered.
Besides `Engine.Coherent` this takes that every record is necessary, which is a part of
`Engine.Settled`.
-/

namespace Cutscene

variable {β : Type}

namespace Engine

/-- How the registry and the instances of an engine stand to each other. -/
structure Consistent [Behaviour β] (e : Engine β) : Prop where
  /-- No two records belong to one instance. -/
  single : e.world.registry.attached.Nodup
  /-- A record that belongs to an instance belongs to one that exists, of its graph. -/
  named : ∀ r ∈ e.world.registry.records, ∀ id, r.playback = some id →
    ∃ p, e.instance? id = some p ∧ p.graph = r.graph
  running : ∀ id p, e.instance? id = some p →
    (p.isRunning = true ↔ ∃ r, e.world.registry.record? id = some r ∧ r.running = true)
  paused : ∀ id p, e.instance? id = some p → p.phase = .paused →
    ∃ r, e.world.registry.record? id = some r ∧ r.isPaused = true ∧
      r.resumePoints = p.resumePoints ∧ p.resumePoints ≠ []
  finished : ∀ id p, e.instance? id = some p → p.phase = .finished →
    e.world.registry.record? id = none
  necessary : e.world.registry.IsTidy
  /-- When a tick comes to an instance that runs, the instance is registered. -/
  live : ∀ fuel nanoseconds before id rest e' p,
    e.instances.map (·.id) = before ++ id :: rest →
    (e.advanced nanoseconds).updateAll fuel before = some e' → e'.instance? id = some p →
    p.phase = .running → e'.world.registry.isLive p.id = true

/-! ### Engines that can be reached -/

variable [Behaviour β] {fuel : Nat} {e e' : Engine β}

theorem coherent_of_reachable {allowed : Operation β → Prop} (h : Reachable allowed e) :
    e.Coherent := by
  induction h with
  | start config kinds => exact coherent_ofKinds config kinds
  | perform _ _ hr ih => exact ih.perform hr

theorem tidy_of_reachable {allowed : Operation β → Prop} (h : Reachable allowed e) :
    e.world.registry.IsTidy := by
  have hsettled : e.Settled := by
    induction h with
    | start config kinds => exact settled_ofKinds config kinds
    | perform _ _ hr ih => exact ih.perform hr
  exact hsettled.tidy

omit [Behaviour β] in
theorem Coherent.agrees_of_instance? (h : e.Coherent) {id : Nat} {p : Playback β}
    (hp : e.instance? id = some p) : p.Agrees e.world.registry :=
  h.agrees p (mem_instances_of_instance? hp)

/-- Whatever a host does with an engine, between two operations the registry and the instances
agree with each other. -/
theorem consistent_of_reachable (h : Reachable (fun _ => True) e) : e.Consistent := by
  have hc : e.Coherent := coherent_of_reachable h
  have ht : e.world.registry.IsTidy := tidy_of_reachable h
  refine ⟨hc.single, fun r hr id hid => ?_, fun id p hp => ?_, fun id p hp hpaused => ?_,
    fun id p hp hf => ?_, ht, fun fuel nanoseconds before id rest e' p _ hu hp hrun => ?_⟩
  · obtain ⟨p, hp, rfl⟩ := hc.named id (Registry.mem_attached.mpr ⟨r, hr, hid⟩)
    have hrecord := (Registry.record?_eq_some_iff hc.single).mpr ⟨hr, hid⟩
    exact ⟨p, hc.instance?_eq_some hp, ((hc.agrees p hp).graph r hrecord).symm⟩
  · have ha := hc.agrees_of_instance? hp
    rw [← instance?_id hp, ← ha.running]
    exact decide_eq_true_iff
  · have ha := hc.agrees_of_instance? hp
    obtain ⟨r, hr, hpoints⟩ := ha.paused hpaused
    -- The record counts as paused, as it does not run and has resume points.
    have hne := (hc.sound p (mem_instances_of_instance? hp)).resumable hpaused
    have hnot : r.running = false := by
      by_contra hrun
      have hphase := ha.running.mpr ⟨r, hr, by simpa using hrun⟩
      simp [hpaused] at hphase
    refine ⟨r, instance?_id hp ▸ hr, ?_, hpoints, hne⟩
    simp [Record.isPaused, hnot, hpoints, hne]
  · rw [← instance?_id hp]
    exact (hc.agrees_of_instance? hp).finished hf
  · -- The tables fit together in the middle of a tick as well.
    have hmoves : Moves e e' := (moves_advanced e nanoseconds).trans (moves_updateAll hu)
    have ha := (hc.moves hmoves).agrees_of_instance? hp
    exact ha.isLive_iff.mpr hrun

/-! ### A graph that runs in a circle -/

/-- A kind of nodes that always say the same. -/
def echo : NodeKind Builtin where
  name := "echo"
  validate _ := .ok ()
  prepare _ := .ok (.comment ⟨"again"⟩)

/-- A graph whose second node leads back to itself. -/
def circle : Graph where
  id := "circle"
  name := "circle"
  nodes := [{ kind := "echo" }, { kind := "echo", endings := [.goto 1] }]

/-- A graph that is triggered by itself. -/
theorem perform_trigger {graph : String} {e₁ : Engine β} {id start : Nat} {p : Playback β}
    {queue : Bool} {conversation : Option String} {r : Playback β × World β}
    (hg : e.graphs.contains graph = true) (hd : e.isEnabled graph = true)
    (hs : e.spawn graph = .ok (e₁, id)) (hp : e₁.instance? id = some p)
    (hr : ({ p with conversation := conversation.or p.conversation } : Playback β).play fuel
      e₁.world start queue = some r)
    (hc : (e₁.put r).conclude fuel = some e') :
    e.perform fuel (.trigger graph { start := some start, queue, conversation }) = some e' := by
  simp [perform, Engine.trigger, begin_of_play hg hd hs hp hr, hc]

/-- Once the circle is triggered at its second node it runs until someone stops it. -/
theorem reachable_circle {allowed : Operation Builtin → Prop}
    (ha : ∀ op, op.isReset = false → allowed op) :
    ∃ e, Reachable allowed e ∧ ∃ p, e.instance? 0 = some p ∧ p.isRunning = true := by
  have htrigger : ∃ e, ((ofKinds {} [echo]).register circle).perform 1
      (.trigger "circle" { start := some 1 }) = some e ∧
      ∃ p, e.instance? 0 = some p ∧ p.isRunning = true :=
    ⟨_, perform_trigger (by decide) (by decide) rfl rfl
      ((Playback.play_of_ne_zero 1 _ true Nat.one_ne_zero (by decide)).trans rfl) rfl, _, rfl, rfl⟩
  obtain ⟨e, he, hrun⟩ := htrigger
  have hregistered : Reachable allowed ((ofKinds {} [echo]).register circle) :=
    (Reachable.start {} [echo]).register circle (ha _ rfl)
  exact ⟨e, hregistered.perform (ha _ rfl) he, hrun⟩

theorem consistent_circle : ∃ e : Engine Builtin,
    (∃ p, e.instance? 0 = some p ∧ p.isRunning = true) ∧ e.Consistent := by
  obtain ⟨e, he, hrun⟩ := reachable_circle fun _ _ => trivial
  exact ⟨e, hrun, consistent_of_reachable he⟩

end Engine

end Cutscene
