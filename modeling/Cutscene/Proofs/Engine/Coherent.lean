import Cutscene.Proofs.Engine.Operation
import Cutscene.Proofs.Engine.Tables
import Cutscene.Proofs.Playback.Agreement
import Cutscene.Proofs.Playback.Reached

/-!
# The registry and the instances of an engine

The instances, the records of the registry and the parked nodes are tables of their own, changed
side by side. `Engine.Coherent` is what keeps them together; every move preserves it
(`Coherent.move`), and so does the reset of a record, which is no move. The registry has none but
necessary records between operations, though not within them, so `Registry.IsTidy` is shown for
each operation (`Settled.perform`). Both together make `consistent_of_reachable`.
-/

namespace Cutscene

variable {β : Type}

/-! ### Sound playbacks that are adjusted, and trimmed registries -/

namespace Playback

theorem isRunningAt_eq_true_iff {p : Playback β} {index : Nat} :
    p.isRunningAt index = true ↔ (p.nodes.map (·.running))[index]? = some true := by
  unfold isRunningAt
  rw [List.getElem?_map]
  cases p.nodes[index]? <;> simp

theorem Sound.adjusted {p p' : Playback β} (h : p.Sound) (ha : p.Adjusted p') : p'.Sound where
  waits hrun := by
    rw [ha.pending]
    exact h.waits (ha.phase ▸ hrun)
  rests hrun := by
    obtain ⟨hpending, hpause, hnodes⟩ := h.rests (ha.phase ▸ hrun)
    refine ⟨ha.pending.trans hpending, ha.pauseRequested.trans hpause, ?_⟩
    have hmap : ∀ b ∈ p.nodes.map (·.running), b = false := by simpa using hnodes
    rw [← ha.nodes] at hmap
    simpa using hmap
  notSkipping := ha.skipping.trans h.notSkipping
  resumable hpaused := by
    rw [ha.resumePoints]
    exact h.resumable (ha.phase ▸ hpaused)
  polled index hi := by
    rw [isRunningAt_eq_true_iff, ha.nodes, ← isRunningAt_eq_true_iff] at hi
    rw [ha.pending]
    exact h.polled index hi

theorem Agrees.adjusted {p p' : Playback β} {reg : Registry} (h : p.Agrees reg)
    (ha : p.Adjusted p') : p'.Agrees reg :=
  h.congr ha.id ha.graph ha.phase (fun _ => ha.resumePoints) rfl

/-- A record that runs or can be resumed outlasts a trim, so the playback goes on agreeing with
it. -/
theorem Agrees.trim {p : Playback β} {reg reg' : Registry} (h : p.Agrees reg) (hs : p.Sound)
    (hn : reg.attached.Nodup) (ht : reg.Trim reg') : p.Agrees reg' := by
  cases hr : reg.record? p.id with
  | none => exact h.congr rfl rfl rfl (fun _ => rfl) ((ht.record?_eq_none hr).trans hr.symm)
  | some r =>
    rcases ht.record? hn hr with ⟨queued, hr'⟩ | ⟨hr', hrun, hpoints⟩
    · -- The record stays, but for its place in the skip queue.
      refine ⟨fun q hq => ?_, ?_, fun hp => ?_, fun hf => ?_⟩
      · obtain rfl := Option.some.inj (hr'.symm.trans hq)
        exact h.graph r hr
      · rw [h.running, hr, hr']
        simp
      · obtain ⟨q, hq, hpts⟩ := h.paused hp
        obtain rfl := Option.some.inj (hr.symm.trans hq)
        exact ⟨_, hr', hpts⟩
      · simp [h.finished hf] at hr
    · -- The record goes, which it would not if the playback ran or were paused.
      refine agrees_of_record?_eq_none hr' (fun hp => ?_) fun hp => ?_
      · obtain ⟨q, hq, hqrun⟩ := h.running.mp hp
        obtain rfl := Option.some.inj (hr.symm.trans hq)
        simp [hrun] at hqrun
      · obtain ⟨q, hq, hpts⟩ := h.paused hp
        obtain rfl := Option.some.inj (hr.symm.trans hq)
        exact hs.resumable hp (hpts.symm.trans hpoints)

end Playback

namespace Engine

/-! ### What keeps the tables together -/

/-- The tables of an engine fit together. -/
structure Coherent (e : Engine β) : Prop where
  ids : (e.instances.map (·.id)).Nodup
  fresh : ∀ p ∈ e.instances, p.id < e.nextId
  single : e.world.registry.attached.Nodup
  named : ∀ id ∈ e.world.registry.attached, ∃ p ∈ e.instances, p.id = id
  sound : ∀ p ∈ e.instances, p.Sound
  agrees : ∀ p ∈ e.instances, p.Agrees e.world.registry
  parked : ∀ graph nodes, e.parked.get? graph = some nodes → AtRest nodes

theorem coherent_ofKinds (config : Config) (kinds : List (NodeKind β)) :
    (ofKinds config kinds).Coherent :=
  have ht := tables_ofKinds config kinds
  ⟨ht.ids, ht.fresh, ht.single, ht.named, fun p hp => absurd hp List.not_mem_nil,
    fun p hp => absurd hp List.not_mem_nil, fun graph nodes h => by simp [ofKinds, Table.get?] at h⟩

theorem Coherent.tables {e : Engine β} (h : e.Coherent) : e.Tables :=
  ⟨h.ids, h.fresh, h.single, h.named⟩

theorem Coherent.instance?_eq_some {e : Engine β} (h : e.Coherent) {p : Playback β}
    (hp : p ∈ e.instances) : e.instance? p.id = some p :=
  h.tables.instance?_eq_some hp

theorem Coherent.atRest {e : Engine β} (h : e.Coherent) {nodes : List (Node β)}
    (ha : e.Available nodes) : AtRest nodes := by
  rcases ha with hrest | ⟨graph, hget⟩ | ⟨p, hp, hrun, rfl⟩
  · exact hrest
  · exact h.parked graph nodes hget
  · exact ((h.sound p hp).rests hrun).2.2

/-- An instance may change together with its record, as long as the two agree. -/
theorem Coherent.put {e : Engine β} (h : e.Coherent) {p : Playback β}
    (hp : e.instance? p.id = some p) {r : Playback β × World β} (hid : r.1.id = p.id)
    (hothers : ∀ id, id ≠ p.id → r.2.registry.record? id = e.world.registry.record? id)
    (hn : r.2.registry.attached.Nodup) (hs : r.1.Sound) (ha : r.1.Agrees r.2.registry) :
    (e.put r).Coherent := by
  have ht := h.tables.put hp hid hothers hn
  refine ⟨ht.ids, ht.fresh, ht.single, ht.named, fun q hq => ?_, fun q hq => ?_, h.parked⟩
  · rcases mem_instances_put hq with rfl | ⟨hq, -⟩
    · exact hs
    · exact h.sound q hq
  · rcases mem_instances_put hq with rfl | ⟨hq, hne⟩
    · exact ha
    · rw [hid] at hne
      exact (h.agrees q hq).congr rfl rfl rfl (fun _ => rfl) (hothers q.id hne)

/-! ### Moves -/

theorem Coherent.adjust {e : Engine β} (h : e.Coherent) {p p' : Playback β}
    (hp : e.instance? p.id = some p) (ha : p.Adjusted p') : (e.put (p', e.world)).Coherent := by
  have hmem := mem_instances_of_instance? hp
  have hsound := (h.sound p hmem).adjusted ha
  have hagrees := (h.agrees p hmem).adjusted ha
  exact h.put hp ha.id (fun _ _ => rfl) h.single hsound hagrees

theorem Coherent.trim {e : Engine β} (h : e.Coherent) {reg : Registry}
    (hr : e.world.registry.Trim reg) : (e.withRegistry reg).Coherent :=
  have ht := h.tables.trim hr
  ⟨ht.ids, ht.fresh, ht.single, ht.named, h.sound,
    fun p hp => (h.agrees p hp).trim (h.sound p hp) h.single hr, h.parked⟩

theorem Coherent.create {e : Engine β} (h : e.Coherent) (edition : Edition)
    {nodes : List (Node β)} (hn : AtRest nodes) : (e.create edition nodes).1.Coherent := by
  have ht := h.tables.create edition nodes
  refine ⟨ht.ids, ht.fresh, ht.single, ht.named, fun p hp => ?_, fun p hp => ?_, h.parked⟩
  · rcases List.mem_append.mp hp with hp | hp
    · exact h.sound p hp
    · rw [List.mem_singleton.mp hp]
      exact Playback.IsNew.sound ⟨rfl, rfl, rfl, rfl, hn⟩
  · rcases List.mem_append.mp hp with hp | hp
    · exact h.agrees p hp
    · rw [List.mem_singleton.mp hp]
      exact Playback.agrees_of_record?_eq_none h.tables.record?_nextId (by simp) (by simp)

/-- An instance that nothing asks for has no record. -/
theorem Coherent.record?_of_isIdle {e : Engine β} (h : e.Coherent) {p : Playback β}
    (hp : p ∈ e.instances) (hi : e.IsIdle p) : e.world.registry.record? p.id = none := by
  rcases hi with hf | ⟨-, hnone⟩
  · exact (h.agrees p hp).finished hf
  · exact hnone

theorem Coherent.sweep {e : Engine β} (h : e.Coherent) {keep : Playback β → Bool}
    (hk : ∀ p ∈ e.instances, keep p = false → e.IsIdle p) :
    ({ e with instances := e.instances.filter keep } : Engine β).Coherent :=
  have ht := h.tables.sweep fun p hp hgoes => h.record?_of_isIdle hp (hk p hp hgoes)
  ⟨ht.ids, ht.fresh, ht.single, ht.named, fun p hp => h.sound p (List.mem_of_mem_filter hp),
    fun p hp => h.agrees p (List.mem_of_mem_filter hp), h.parked⟩

section

variable [Behaviour β] {e e' : Engine β}

/-- What an instance does by itself, even a reset of its record, keeps the tables together. -/
theorem Coherent.act (h : e.Coherent) {p : Playback β} (hp : e.instance? p.id = some p)
    {fuel : Nat} {op : Playback.Operation} {r : Playback β × World β}
    (hr : p.perform fuel e.world op = some r) : (e.put r).Coherent := by
  have hmem := mem_instances_of_instance? hp
  have hagrees := h.agrees p hmem
  have hid : r.1.id = p.id := congrArg Playback.Identity.id (Playback.identity_perform hr)
  have hn := Playback.nodup_attached_perform hr h.single
  -- That a playback which runs is registered as running is what an update relies on.
  have hsound := (h.sound p hmem).perform hagrees.isLive_iff.mpr hr
  exact h.put hp hid (fun id hne => Playback.record?_perform hr hne) hn hsound (hagrees.perform hr)

theorem Coherent.move (h : e.Coherent) {acts : List (Act β)} (hm : Move e acts e') :
    e'.Coherent := by
  cases hm with
  | act hp hop hr => exact h.act hp hr
  | adjust hp ha => exact h.adjust hp ha
  | around hr he =>
    refine ⟨h.ids, h.fresh, ?_, ?_, h.sound, ?_, h.parked⟩ <;> rw [hr]
    · exact h.single
    · exact h.named
    · exact h.agrees
  | trim ht => exact h.trim ht
  | shelve hget =>
    exact ⟨h.ids, h.fresh, h.single, h.named, h.sound, h.agrees,
      fun graph nodes hn => h.atRest (hget graph nodes hn)⟩
  | create edition ha => exact h.create edition (h.atRest ha)
  | sweep hk => exact h.sweep hk
  | reload hnone hr =>
    have ht := h.tables.reload hr
    have hempty : ∀ p, p ∉ e.instances := by simp [hnone]
    exact ⟨ht.ids, ht.fresh, ht.single, ht.named, h.sound, fun p hp => absurd hp (hempty p),
      h.parked⟩

theorem Coherent.course (h : e.Coherent) {acts : List (Act β)} (hc : Course e acts e') :
    e'.Coherent := by
  induction hc with
  | refl => exact h
  | tail _ hm ih => exact ih.move hm

theorem Coherent.moves (h : e.Coherent) (hm : Moves e e') : e'.Coherent := by
  obtain ⟨acts, hc⟩ := hm
  exact h.course hc

/-- The record that is reset has an instance, which is halted with it. -/
theorem Coherent.resetRecord (h : e.Coherent) (id : Nat) (unqueue : Bool) :
    (e.resetRecord id unqueue).1.Coherent := by
  unfold Engine.resetRecord
  by_cases hnone : (e.world.registry.record? id).isNone
  · rw [if_pos hnone]
    exact h
  · rw [if_neg hnone]
    have hattached : id ∈ e.world.registry.attached := by
      by_contra hid
      exact hnone (by simp [Registry.record?_eq_none_iff.mpr hid])
    obtain ⟨p, hp, rfl⟩ := h.named id hattached
    have hfind := h.instance?_eq_some hp
    have hreset : p.perform 0 e.world (.reset unqueue) = some (p.halt,
        { e.world with registry := e.world.registry.modify p.id (·.reset unqueue) }) := by
      rw [Playback.perform, Playback.reset, if_neg hnone]
    have hact := (h.act hfind hreset).trim .purge
    -- Halting does not touch the registry, so it may come before or after the reset.
    simp only [modifyInstance, hfind]
    exact hact.moves (moves_collect _)

theorem Coherent.perform (h : e.Coherent) {fuel : Nat} {op : Operation β}
    (hr : e.perform fuel op = some e') : e'.Coherent := by
  cases hop : op.isReset with
  | false => exact h.moves (moves_perform hop hr)
  | true =>
    cases op with
    | resetRecord id unqueue =>
      obtain rfl := Option.some.inj hr
      exact h.resetRecord id unqueue
    | _ => simp [Operation.isReset] at hop

end

end Engine

end Cutscene
