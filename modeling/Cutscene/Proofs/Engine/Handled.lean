import Cutscene.Proofs.Engine.Settled
import Cutscene.Proofs.Engine.Tables
import Cutscene.Proofs.Playback.Links

/-!
# Engines that a host has laid hands on

A host may also reach into an instance and give up its branches (`Engine.Handled`), which stalls a
run and so breaks what `Engine.Coherent` asks for. What is left is `Engine.Linked`: ids are in
order, and every instance is linked to its record. `Handled.invariant` is the induction over all
that can happen to such an engine: it takes steps, and its host meddles with instances.
-/

namespace Cutscene.Engine

variable {β : Type}

/-- The tables of an engine fit together as far as nobody can help it. -/
structure Linked (e : Engine β) : Prop where
  tables : e.Tables
  linked : ∀ p ∈ e.instances, p.Linked e.world.registry
  notSkipping : ∀ p ∈ e.instances, p.skipping = false

theorem linked_ofKinds (config : Config) (kinds : List (NodeKind β)) :
    (ofKinds config kinds).Linked where
  tables := tables_ofKinds config kinds
  linked _ hp := absurd hp List.not_mem_nil
  notSkipping _ hp := absurd hp List.not_mem_nil

variable {e e' : Engine β}

/-- An instance that changes has to stay linked to its record, and the others do anyway. -/
theorem Linked.put (h : e.Linked) {p : Playback β} (hp : e.instance? p.id = some p)
    {r : Playback β × World β} (hid : r.1.id = p.id)
    (hothers : ∀ id, id ≠ p.id → r.2.registry.record? id = e.world.registry.record? id)
    (hn : r.2.registry.attached.Nodup) (hl : r.1.Linked r.2.registry)
    (hs : r.1.skipping = false) : (e.put r).Linked where
  tables := h.tables.put hp hid hothers hn
  linked q hq := by
    rcases mem_instances_put hq with rfl | ⟨hq, hne⟩
    · exact hl
    · rw [hid] at hne
      exact (h.linked q hq).congr rfl rfl rfl rfl (hothers q.id hne)
  notSkipping q hq := by
    rcases mem_instances_put hq with rfl | ⟨hq, -⟩
    · exact hs
    · exact h.notSkipping q hq

theorem Linked.create (h : e.Linked) (edition : Edition) (nodes : List (Node β)) :
    (e.create edition nodes).1.Linked where
  tables := h.tables.create edition nodes
  linked p hp := by
    rcases List.mem_append.mp hp with hp | hp
    · exact h.linked p hp
    · rw [List.mem_singleton.mp hp]
      exact Playback.linked_of_record?_eq_none h.tables.record?_nextId (by simp)
  notSkipping p hp := by
    rcases List.mem_append.mp hp with hp | hp
    · exact h.notSkipping p hp
    · rw [List.mem_singleton.mp hp]

/-- What happens beside the registry and the instances does not matter. -/
theorem Linked.beside (h : e.Linked) (hi : e'.instances = e.instances)
    (hr : e'.world.registry = e.world.registry) (hn : e'.nextId = e.nextId) : e'.Linked := by
  obtain ⟨⟨hids, hfresh, hsingle, hnamed⟩, hlinked, hskipping⟩ := h
  refine ⟨⟨?_, ?_, ?_, ?_⟩, ?_, ?_⟩
  · rw [hi]
    exact hids
  · rw [hi, hn]
    exact hfresh
  · rw [hr]
    exact hsingle
  · rw [hi, hr]
    exact hnamed
  · rw [hi, hr]
    exact hlinked
  · rw [hi]
    exact hskipping

/-! ### What can happen -/

variable [Behaviour β]

/-- The engines that a host can come by if it does not only call operations, but also gives up the
branches of instances with its own hands. -/
inductive Handled : Engine β → Prop
  | start (config : Config) (kinds : List (NodeKind β)) : Handled (ofKinds config kinds)
  | perform {e e' : Engine β} (h : Handled e) {fuel : Nat} {op : Operation β}
    (hr : e.perform fuel op = some e') : Handled e'
  | clear {e : Engine β} (h : Handled e) (id : Nat) :
    Handled (e.modifyInstance id fun p => (p.clearBranches, []))

theorem Reachable.handled {allowed : Operation β → Prop} {e : Engine β}
    (h : Reachable allowed e) : e.Handled := by
  induction h with
  | start config kinds => exact .start config kinds
  | perform _ _ hr ih => exact ih.perform hr

/-- What can happen to an engine. -/
inductive Touch (e : Engine β) : Engine β → Prop
  | step {e' : Engine β} (h : Step e e') : Touch e e'
  | meddle {p : Playback β} (hp : e.instance? p.id = some p) {r : Playback β × World β}
    (hr : p.Meddling e.world r) : Touch e (e.put r)

theorem Linked.step (h : e.Linked) (hs : Step e e') : e'.Linked := by
  cases hs with
  | @act p fuel op r hp hop hr =>
    have hmem := mem_instances_of_instance? hp
    have hid : r.1.id = p.id := congrArg Playback.Identity.id (Playback.identity_perform hr)
    have hnot := h.notSkipping p hmem
    exact h.put hp hid (fun id hne => Playback.record?_perform hr hne)
      (Playback.nodup_attached_perform hr h.tables.single)
      (Playback.linked_perform (h.linked p hmem) hnot hop hr)
      (Playback.notSkipping_perform hnot hr)
  | @told p hp parameters conversation =>
    have hmem := mem_instances_of_instance? hp
    exact h.put hp rfl (fun _ _ => rfl) h.tables.single
      ((h.linked p hmem).congr rfl rfl rfl rfl rfl) (h.notSkipping p hmem)
  | @forgot p hp =>
    have hmem := mem_instances_of_instance? hp
    exact h.put hp rfl (fun _ _ => rfl) h.tables.single
      ((h.linked p hmem).congr rfl rfl rfl rfl rfl) (h.notSkipping p hmem)
  | around hw => exact h.beside rfl hw.registry rfl
  | trim ht =>
    exact ⟨h.tables.trim ht, fun p hp => (h.linked p hp).trim h.tables.single ht, h.notSkipping⟩
  | allow => exact h.beside rfl rfl rfl
  | register graph => exact h.beside rfl rfl rfl
  | @spawn _ graph id hs =>
    rcases spawn_cases hs with ⟨rfl, -⟩ | ⟨edition, nodes, notices, parked, -, -, -, -, heq⟩
    · exact h
    · obtain rfl : e' = _ := congrArg Prod.fst heq
      -- Nothing but notices and the shelf changes before the instance is made.
      have hnoticed : (({ e with parked } : Engine β).noticeAll notices).Linked :=
        h.beside rfl (e.world.quiet_noticeAll notices).registry rfl
      exact hnoticed.create edition nodes
  | @park p hp hrun =>
    obtain ⟨parked, hpark, -⟩ := e.park_eq p
    rw [hpark e.instances]
    exact h.beside rfl rfl rfl
  | sweep hk =>
    -- What goes has no record, so no record is left without its instance.
    have hnone : ∀ p ∈ e.instances, e.IsIdle p → e.world.registry.record? p.id = none := by
      rintro p hp (hover | ⟨-, hr⟩)
      · exact (h.linked p hp).finished hover
      · exact hr
    exact ⟨h.tables.sweep fun p hp hgoes => hnone p hp (hk p hp hgoes),
      fun p hp => h.linked p (List.mem_of_mem_filter hp),
      fun p hp => h.notSkipping p (List.mem_of_mem_filter hp)⟩
  -- There was no instance when the save was read.
  | reload hnone hr =>
    have hempty : ∀ p, p ∉ e.instances := by simp [hnone]
    exact ⟨h.tables.reload hr, fun p hp => absurd hp (hempty p), h.notSkipping⟩

/-- Not even a host that meddles tears an instance off its record. -/
theorem Linked.touch (h : e.Linked) (ht : Touch e e') : e'.Linked := by
  cases ht with
  | step hs => exact h.step hs
  | @meddle p hp r hr =>
    have hmem := mem_instances_of_instance? hp
    have hlinked := (h.linked p hmem).meddling hr
    cases hr with
    | clear => exact h.put hp rfl (fun _ _ => rfl) h.tables.single hlinked rfl
    | reset unqueue =>
      have hid : p.halt.id = p.id := congrArg Playback.Identity.id p.identity_halt
      have hskipping : p.halt.skipping = false := by
        unfold Playback.halt
        dsimp only
        split_ifs <;> rfl
      refine h.put hp hid (fun id hne => ?_) ?_ hlinked hskipping
      · exact (Registry.record?_reset ..).trans (if_neg hne)
      · rw [Registry.attached_reset]
        exact h.tables.single

theorem Linked.steps (h : e.Linked) (hs : Steps e e') : e'.Linked :=
  hs.invariant h fun _ _ he hstep => he.step hstep

/-! ### From touch to touch -/

/-- Any number of things that happen to an engine. -/
abbrev Touches (e e' : Engine β) : Prop := Relation.ReflTransGen Touch e e'

theorem Steps.touches (h : Steps e e') : Touches e e' := by
  induction h with
  | refl => exact .refl
  | tail _ hs ih => exact ih.tail (.step hs)

/-- Every deed is a number of things that happen. -/
theorem Doing.touches {d : Deed β} (h : Doing e d e') : Touches e e' := by
  by_cases hd : d.isMeddling = true
  · cases h with
    | clear hp => exact .single (.meddle hp .clear)
    | reset hp unqueue => exact .single (.meddle hp (.reset unqueue))
    | _ => simp [Deed.isMeddling] at hd
  · exact (h.steps (by simpa using hd)).touches

theorem Does.touches {allowed : Engine β → Deed β → Prop} (h : Does allowed e e') :
    Touches e e' := by
  induction h with
  | refl => exact .refl
  | tail _ hd ih =>
    obtain ⟨d, -, hdoing⟩ := hd
    exact ih.trans hdoing.touches

/-- To reset the record of an instance is to meddle with the instance, and then to clear away. -/
theorem Linked.does_resetRecord (h : e.Linked) (id : Nat) (unqueue : Bool) :
    Does (fun _ => (Operation.resetRecord (β := β) id unqueue).Brings) e
      (e.resetRecord id unqueue).1 := by
  unfold Engine.resetRecord
  by_cases hnone : (e.world.registry.record? id).isNone
  · rw [if_pos hnone]
  · rw [if_neg hnone]
    have hattached : id ∈ e.world.registry.attached := by
      by_contra hid
      exact hnone (by simp [Registry.record?_eq_none_iff.mpr hid])
    obtain ⟨p, hp, rfl⟩ := h.tables.named id hattached
    have hfind := h.tables.instance?_eq_some hp
    let halted : Engine β := e.put (p.halt,
      { e.world with registry := e.world.registry.modify p.id (·.reset unqueue) })
    have hreset : Doing e .reset halted := .reset hfind unqueue
    have hpurge : Does (Commanded Triggered) halted
        (halted.withRegistry halted.world.registry.purge).collect :=
      .head ⟨.thin, ⟨trivial, rfl⟩, .thin .purge fun _ => List.mem_of_mem_filter⟩ (does_collect _)
    -- Halting does not touch the registry, so it may come before or after the reset.
    simp only [modifyInstance, hfind]
    exact (hreset.does ⟨rfl, fun h => nomatch h⟩).trans (hpurge.ordinary.brings _)

/-- Every operation is a number of deeds that it may bring about. -/
theorem Linked.does_brings (h : e.Linked) {fuel : Nat} {op : Operation β}
    (hr : e.perform fuel op = some e') : Does (fun _ => op.Brings) e e' := by
  cases hop : op.isReset with
  | false => exact Engine.does_brings hop hr
  | true =>
    cases op with
    | resetRecord id unqueue =>
      obtain rfl := Option.some.inj hr
      exact h.does_resetRecord id unqueue
    | _ => simp [Operation.isReset] at hop

/-- Every operation is a number of deeds that it admits. -/
theorem Linked.does_perform (h : e.Linked) {fuel : Nat} {op : Operation β}
    (hr : e.perform fuel op = some e') : Does (fun _ => op.Admits) e e' :=
  (h.does_brings hr).mono fun _ _ hd => hd.1

theorem Linked.touches_perform (h : e.Linked) {fuel : Nat} {op : Operation β}
    (hr : e.perform fuel op = some e') : Touches e e' :=
  (h.does_perform hr).touches

theorem touches_clear (e : Engine β) (id : Nat) :
    Touches e (e.modifyInstance id fun p => (p.clearBranches, [])) := by
  unfold modifyInstance
  cases hp : e.instance? id with
  | none => exact .refl
  | some p => exact .single (.meddle (instance?_self hp) .clear)

theorem Linked.touches (h : e.Linked) (ht : Touches e e') : e'.Linked := by
  induction ht with
  | refl => exact h
  | tail _ ht ih => exact ih.touch ht

/-- Whatever a host does, instances stay linked to their records. -/
theorem Handled.linked (h : e.Handled) : e.Linked := by
  induction h with
  | start config kinds => exact linked_ofKinds config kinds
  | perform _ hr ih => exact ih.touches (ih.touches_perform hr)
  | clear _ id ih => exact ih.touches (touches_clear _ id)

/-- Whatever a host does, nothing is left in the end that would be cleared away. To give up branches
does not touch phases. -/
theorem Handled.settled (h : e.Handled) : e.Settled := by
  induction h with
  | start config kinds => exact settled_ofKinds config kinds
  | perform _ hr ih => exact ih.perform hr
  | clear _ id ih => exact ih.modifyInstance id fun p => ⟨rfl, rfl, rfl⟩

/-- What new engines have and everything that can happen keeps is true of every engine that a host
has laid hands on. -/
theorem Handled.invariant {I : Engine β → Prop} (h : e.Handled)
    (hstart : ∀ config kinds, I (ofKinds config kinds))
    (htouch : ∀ e e' : Engine β, e.Linked → I e → Touch e e' → I e') : I e := by
  have htouches : ∀ {e e' : Engine β}, e.Linked → I e → Touches e e' → I e' := by
    intro e e' hl he ht
    have hboth : e'.Linked ∧ I e' := by
      induction ht with
      | refl => exact ⟨hl, he⟩
      | tail _ ht ih => exact ⟨ih.1.touch ht, htouch _ _ ih.1 ih.2 ht⟩
    exact hboth.2
  induction h with
  | start config kinds => exact hstart config kinds
  | perform h hr ih => exact htouches h.linked ih (h.linked.touches_perform hr)
  | clear h id ih => exact htouches h.linked ih (touches_clear _ id)

end Cutscene.Engine
