import Cutscene.Proofs.Engine.Step

/-!
# Ids of instances and of records

Instances and records know each other by ids. `Engine.Tables` is what makes that work: no id stands
for two instances or two records, none is given out twice, and every record that belongs to an
instance belongs to one that exists. There is one lemma for each way in which the tables change.
-/

namespace Cutscene.Engine

variable {β : Type}

/-- Ids are given out once, and the records of instances have one. -/
structure Tables (e : Engine β) : Prop where
  ids : (e.instances.map (·.id)).Nodup
  fresh : ∀ p ∈ e.instances, p.id < e.nextId
  single : e.world.registry.attached.Nodup
  named : ∀ id ∈ e.world.registry.attached, ∃ p ∈ e.instances, p.id = id

theorem tables_ofKinds (config : Config) (kinds : List (NodeKind β)) :
    (ofKinds config kinds).Tables where
  ids := List.nodup_nil
  fresh _ hp := absurd hp List.not_mem_nil
  single := List.nodup_nil
  named _ hid := absurd hid List.not_mem_nil

/-- With one instance for each id, an instance is the one that is found. -/
theorem Tables.instance?_eq_some {e : Engine β} (h : e.Tables) {p : Playback β}
    (hp : p ∈ e.instances) : e.instance? p.id = some p := by
  cases hfind : e.instance? p.id with
  | none =>
    have hnone : ∀ q ∈ e.instances, q.id ≠ p.id := by
      simpa [instance?] using hfind
    exact absurd rfl (hnone p hp)
  | some q =>
    have hq := mem_instances_of_instance? hfind
    rw [List.inj_on_of_nodup_map h.ids hq hp (instance?_id hfind)]

theorem mem_instances_put {e : Engine β} {r : Playback β × World β} {q : Playback β}
    (h : q ∈ (e.put r).instances) : q = r.1 ∨ q ∈ e.instances ∧ q.id ≠ r.1.id := by
  obtain ⟨p, hp, rfl⟩ := List.mem_map.mp h
  by_cases hid : p.id = r.1.id
  · exact Or.inl (if_pos hid)
  · rw [if_neg hid]
    exact Or.inr ⟨hp, hid⟩

theorem mem_put_self {e : Engine β} {id : Nat} {p : Playback β} (hp : e.instance? id = some p)
    {r : Playback β × World β} (hid : r.1.id = p.id) : r.1 ∈ (e.put r).instances :=
  List.mem_map.mpr ⟨p, mem_instances_of_instance? hp, if_pos hid.symm⟩

theorem mem_put_of_ne {e : Engine β} {q : Playback β} (hq : q ∈ e.instances)
    {r : Playback β × World β} (hne : q.id ≠ r.1.id) : q ∈ (e.put r).instances :=
  List.mem_map.mpr ⟨q, hq, if_neg hne⟩

/-- The instance that changes is what it is now, and the others are what they were. -/
theorem Tables.mem_put {e : Engine β} (h : e.Tables) {id : Nat} {p : Playback β}
    (hp : e.instance? id = some p) {r : Playback β × World β} (hid : r.1.id = p.id)
    {q : Playback β} (hq : q ∈ e.instances) :
    q = p ∧ r.1 ∈ (e.put r).instances ∨ q.id ≠ p.id ∧ q ∈ (e.put r).instances := by
  by_cases hne : q.id = p.id
  · have hfound := h.instance?_eq_some hq
    rw [hne, instance?_self hp] at hfound
    exact Or.inl ⟨(Option.some.inj hfound).symm, mem_put_self hp hid⟩
  · exact Or.inr ⟨hne, mem_put_of_ne hq (hid ▸ hne)⟩

theorem put_ids (e : Engine β) (r : Playback β × World β) :
    (e.put r).instances.map (·.id) = e.instances.map (·.id) := by
  unfold put
  rw [List.map_map]
  refine List.map_congr_left fun q _ => ?_
  simp only [Function.comp_apply]
  split_ifs with h
  · exact h.symm
  · rfl

/-- An instance may change together with its record. -/
theorem Tables.put {e : Engine β} (h : e.Tables) {p : Playback β}
    (hp : e.instance? p.id = some p) {r : Playback β × World β} (hid : r.1.id = p.id)
    (hothers : ∀ id, id ≠ p.id → r.2.registry.record? id = e.world.registry.record? id)
    (hn : r.2.registry.attached.Nodup) : (e.put r).Tables where
  ids := by
    rw [put_ids]
    exact h.ids
  fresh q hq := by
    rcases mem_instances_put hq with rfl | ⟨hq, -⟩
    · rw [hid]
      exact h.fresh p (mem_instances_of_instance? hp)
    · exact h.fresh q hq
  single := hn
  named id hattached := by
    have hmem : ∃ q ∈ e.instances, q.id = id := by
      by_cases hne : id = p.id
      · exact ⟨p, mem_instances_of_instance? hp, hne.symm⟩
      · -- The records of other instances were there before.
        refine h.named id ?_
        by_contra hold
        rw [← Registry.record?_eq_none_iff, ← hothers id hne] at hold
        exact Registry.record?_eq_none_iff.mp hold hattached
    have hmap : id ∈ (e.put r).instances.map (·.id) := by
      rw [put_ids]
      exact List.mem_map.mpr hmem
    exact List.mem_map.mp hmap

theorem Tables.trim {e : Engine β} (h : e.Tables) {reg : Registry}
    (ht : e.world.registry.Trim reg) : (e.withRegistry reg).Tables where
  ids := h.ids
  fresh := h.fresh
  single := h.single.sublist ht.attached_sublist
  named id hid := h.named id (ht.attached_sublist.subset hid)

/-- No record belongs to an id that has not been given out. -/
theorem Tables.record?_nextId {e : Engine β} (h : e.Tables) :
    e.world.registry.record? e.nextId = none := by
  rw [Registry.record?_eq_none_iff]
  intro hid
  obtain ⟨p, hp, hpid⟩ := h.named _ hid
  have hlt := h.fresh p hp
  omega

theorem Tables.create {e : Engine β} (h : e.Tables) (edition : Edition) (nodes : List (Node β)) :
    (e.create edition nodes).1.Tables := by
  refine ⟨?_, fun p hp => ?_, h.single, fun id hid => ?_⟩
  · simp only [Engine.create, List.map_append, List.nodup_append, List.map_cons, List.map_nil]
    refine ⟨h.ids, List.nodup_singleton _, fun a ha b hb => ?_⟩
    obtain ⟨p, hp, rfl⟩ := List.mem_map.mp ha
    have hlt := h.fresh p hp
    rw [List.mem_singleton.mp hb]
    omega
  · have hle : p.id ≤ e.nextId := by
      rcases List.mem_append.mp hp with hp | hp
      · exact Nat.le_of_lt (h.fresh p hp)
      · exact Nat.le_of_eq (congrArg Playback.id (List.mem_singleton.mp hp))
    exact Nat.lt_succ_of_le hle
  · obtain ⟨p, hp, hpid⟩ := h.named id hid
    exact ⟨p, List.mem_append_left _ hp, hpid⟩

/-- Only instances without a record may go. -/
theorem Tables.sweep {e : Engine β} (h : e.Tables) {keep : Playback β → Bool}
    (hk : ∀ p ∈ e.instances, keep p = false → e.world.registry.record? p.id = none) :
    ({ e with instances := e.instances.filter keep } : Engine β).Tables where
  ids := h.ids.sublist (List.filter_sublist.map _)
  fresh p hp := h.fresh p (List.mem_of_mem_filter hp)
  single := h.single
  named id hid := by
    obtain ⟨p, hp, rfl⟩ := h.named id hid
    refine ⟨p, List.mem_filter.mpr ⟨hp, ?_⟩, rfl⟩
    by_contra hkeep
    have hnone := hk p hp (by simpa using hkeep)
    exact Registry.record?_eq_none_iff.mp hnone hid

theorem Tables.reload {e : Engine β} (h : e.Tables) {reg : Registry} (hr : reg.IsAnew) :
    (e.withRegistry reg).Tables where
  ids := h.ids
  fresh := h.fresh
  single := hr.attached_eq_nil ▸ List.nodup_nil
  named id hid := by simp [withRegistry, hr.attached_eq_nil] at hid

end Cutscene.Engine
