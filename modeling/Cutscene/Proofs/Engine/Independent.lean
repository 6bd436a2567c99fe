import Cutscene.Proofs.Engine.Consistent
import Cutscene.Proofs.Engine.Flush
import Cutscene.Proofs.Playback.SelfContained

/-!
# Instances that are independent of each other

As long as nodes raise no commands, leave the variables alone and do not ask which graphs run
(`Engine.Undisturbed`), a tick updates every instance as if it were alone. `Engine.Amid` is what is
true in the middle of a tick: the instances that have had their turn are what they would be if
nobody else had been updated, and those that have not are what they were. `tick_independent` reads
off what this comes to in the end, after records and instances have been cleared away: neither the
order of the instances nor who else is there makes a difference to one of them.
-/

namespace Cutscene.Engine

variable {β : Type}

/-- An instance and its record are the same in two engines. -/
structure SameAt (id : Nat) (e f : Engine β) : Prop where
  instance? : f.instance? id = e.instance? id
  record? : f.world.registry.record? id = e.world.registry.record? id

/-- In two engines an instance and its record come to the same, and the same is heard of it
meanwhile. -/
structure FaresAlike (id : Nat) (e e' f f' : Engine β) : Prop extends SameAt id e' f' where
  news : f.world.news f'.world id = e.world.news e'.world id

/-- No node does anything to other instances or knows of them. -/
structure Undisturbed [Behaviour β] (S : β → Prop) (e : Engine β) : Prop where
  linked : e.Linked
  commands : e.world.commands = []
  apart : ∀ p ∈ e.instances, p.Behaves S ∧ p.KeepsToItself

/-- The engine in the middle of a tick, in which some instances are still to have their turn. -/
structure Amid [Behaviour β] (fuel : Nat) (e a : Engine β) (rest : List Nat) : Prop where
  linked : a.Linked
  commands : a.world.commands = []
  setting : e.world.SameSetting a.world
  waits : ∀ id ∈ rest, e.SameAt id a ∧ a.world.eventsOf id = e.world.eventsOf id
  /-- The others are what they would be if nobody else had been updated. -/
  updated : ∀ p ∈ e.instances, p.id ∉ rest → ∃ r, p.update fuel e.world = some r ∧
    (e.put r).SameAt p.id a ∧ a.world.eventsOf p.id = r.2.eventsOf p.id

variable {e e' f f' a : Engine β} {id : Nat}

theorem SameAt.trans (h : e.SameAt id a) (h' : a.SameAt id f) : e.SameAt id f where
  instance? := h'.instance?.trans h.instance?
  record? := h'.record?.trans h.record?

theorem SameAt.symm (h : e.SameAt id f) : f.SameAt id e where
  instance? := h.instance?.symm
  record? := h.record?.symm

/-- What is cleared away of the instances is cleared away of each. -/
theorem instance?_collect (h : e.Linked) (id : Nat) :
    e.collect.instance? id = (e.instance? id).filter fun p =>
      !(e.withRegistry e.world.registry.purge).isDone p := by
  rw [Engine.instance?, instances_collect]
  cases hp : e.instance? id with
  | none =>
    refine List.find?_eq_none.mpr fun q hq => ?_
    exact List.find?_eq_none.mp hp q (List.mem_of_mem_filter hq)
  | some p =>
    have hmem := mem_instances_of_instance? hp
    obtain rfl := instance?_id hp
    -- Nobody else goes by the id.
    have honly : ∀ q ∈ e.instances, q.id = p.id → q = p := fun q hq hid =>
      List.inj_on_of_nodup_map h.tables.ids hq hmem hid
    by_cases hkeep : (!(e.withRegistry e.world.registry.purge).isDone p) = true
    · rw [Option.filter_some, if_pos hkeep]
      have hsome : ((e.instances.filter fun q =>
          !(e.withRegistry e.world.registry.purge).isDone q).find? (·.id = p.id)).isSome :=
        List.find?_isSome.mpr ⟨p, List.mem_filter.mpr ⟨hmem, hkeep⟩, by simp⟩
      obtain ⟨q, hq⟩ := Option.isSome_iff_exists.mp hsome
      have hqmem := List.mem_of_mem_filter (List.mem_of_find?_eq_some hq)
      rw [hq, honly q hqmem (by simpa using List.find?_some hq)]
    · rw [Option.filter_some, if_neg hkeep]
      refine List.find?_eq_none.mpr fun q hq hid => ?_
      obtain ⟨hqmem, hqkeep⟩ := List.mem_filter.mp hq
      rw [honly q hqmem (by simpa using hid)] at hqkeep
      exact hkeep hqkeep

/-- To clear up is the same for an instance wherever it and its record are. -/
theorem SameAt.collect (h : e.SameAt id f) (he : e.Linked) (hf : f.Linked) :
    e.collect.SameAt id f.collect := by
  have hrecord : f.world.registry.purge.record? id = e.world.registry.purge.record? id := by
    rw [Registry.record?_purge hf.tables.single, Registry.record?_purge he.tables.single, h.record?]
  refine ⟨?_, ?_⟩
  · rw [instance?_collect hf, instance?_collect he, h.instance?]
    cases hp : e.instance? id with
    | none => rfl
    | some p =>
      obtain rfl := instance?_id hp
      have hdone : (f.withRegistry f.world.registry.purge).isDone p =
          (e.withRegistry e.world.registry.purge).isDone p := isDone_congr rfl rfl hrecord
      rw [Option.filter_some, Option.filter_some, hdone]
  · rw [world_collect, world_collect]
    exact hrecord

variable [Behaviour β] {S : β → Prop} {fuel : Nat} {rest : List Nat} {p : Playback β}

theorem Handled.undisturbed (h : e.Handled)
    (hb : ∀ p ∈ e.instances, p.Behaves S ∧ p.KeepsToItself) : e.Undisturbed S :=
  ⟨h.linked, h.commands, hb⟩

omit [Behaviour β] in
/-- The other instances are not affected when one of them changes with its record. -/
theorem sameAt_put {r : Playback β × World β} (hid : id ≠ r.1.id)
    (hr : r.2.registry.record? id = e.world.registry.record? id) : e.SameAt id (e.put r) where
  instance? := by
    rw [instance?_put]
    cases hq : e.instance? id with
    | none => rfl
    | some q =>
      have hne : q.id ≠ r.1.id := by
        rw [instance?_id hq]
        exact hid
      exact congrArg some (if_neg hne)
  record? := hr

theorem step_update {r : Playback β × World β} (hp : e.instance? p.id = some p)
    (hr : p.update fuel e.world = some r) : Step e (e.put r) := by
  have hperform : p.perform fuel e.world .update = some r := hr
  exact .act hp rfl hperform

/-- One instance after the other has its turn. -/
theorem Amid.next (hS : SelfContained S) (he : e.Undisturbed S) (h : e.Amid fuel a (p.id :: rest))
    (hp : p ∈ e.instances) (hrest : p.id ∉ rest) {r : Playback β × World β}
    (hr : p.update fuel e.world = some r) :
    ∃ r', p.update fuel a.world = some r' ∧ e.Amid fuel (a.put r') rest := by
  obtain ⟨hsame, hevents⟩ := h.waits p.id List.mem_cons_self
  obtain ⟨hbehaves, hself⟩ := he.apart p hp
  have hnot := he.linked.notSkipping p hp
  have hlive : p.IsLive e.world := (he.linked.linked p hp).live
  have hfor : e.world.SameFor p.id a.world := ⟨h.setting, hsame.record?⟩
  obtain ⟨r', hr', hplayback, hleft, log, hgrows, hgrows'⟩ :=
    Playback.update_sameFor hS hbehaves hnot hfor (h.commands.trans he.commands.symm) hlive hr
  obtain ⟨hsetting, hcommands⟩ := Playback.quiet_update hS hbehaves hself hnot hr'
  have hpa : a.instance? p.id = some p :=
    hsame.instance?.trans (he.linked.tables.instance?_eq_some hp)
  have hstages : Stages (p, a.world) r' := Playback.stages_update hr'
  have hid : r'.1.id = p.id := hstages.id_eq
  -- Nobody but the instance has changed.
  have hothers : ∀ id, id ≠ p.id → a.SameAt id (a.put r') ∧
      (a.put r').world.eventsOf id = a.world.eventsOf id := fun id hne =>
    ⟨sameAt_put (hid ▸ hne) (Playback.record?_of_stages hstages hne), hstages.eventsOf_eq hne⟩
  refine ⟨r', hr', ⟨h.linked.step (step_update hpa hr'), hcommands.trans h.commands,
    h.setting.trans hsetting, fun id hmem => ?_, fun q hq hqrest => ?_⟩⟩
  · have hne : id ≠ p.id := fun heq => hrest (heq ▸ hmem)
    obtain ⟨hsame', hevents'⟩ := h.waits id (List.mem_cons_of_mem _ hmem)
    obtain ⟨hother, hothernews⟩ := hothers id hne
    exact ⟨hsame'.trans hother, hothernews.trans hevents'⟩
  · by_cases hne : q.id = p.id
    · obtain rfl : q = p := List.inj_on_of_nodup_map he.linked.tables.ids hq hp hne
      refine ⟨r, hr, ⟨?_, hleft.record?⟩, ?_⟩
      · rw [instance?_put, instance?_put, hpa, he.linked.tables.instance?_eq_some hq, hplayback]
      · change r'.2.eventsOf q.id = _
        rw [hgrows'.events, hgrows.events, hevents]
    · obtain ⟨s, hs, hsame', hevents'⟩ := h.updated q hq (by simp [hne, hqrest])
      obtain ⟨hother, hothernews⟩ := hothers q.id hne
      exact ⟨s, hs, hsame'.trans hother, hothernews.trans hevents'⟩

/-- The instances are updated one after the other, if each could be updated by itself. -/
theorem Amid.updateAll (hS : SelfContained S) (he : e.Undisturbed S) (h : e.Amid fuel a rest)
    (hnodup : rest.Nodup) (hrest : ∀ id ∈ rest, ∃ p ∈ e.instances, p.id = id) :
    ((a.updateAll fuel rest).isSome = true ↔
      ∀ p ∈ e.instances, p.id ∈ rest → (p.update fuel e.world).isSome = true) ∧
    ∀ a', a.updateAll fuel rest = some a' → e.Amid fuel a' [] := by
  induction rest generalizing a with
  | nil =>
    refine ⟨⟨fun _ p _ hmem => absurd hmem List.not_mem_nil, fun _ => rfl⟩, fun a' ha' => ?_⟩
    obtain rfl := Option.some.inj ha'
    exact h
  | cons id rest ih =>
    obtain ⟨p, hp, rfl⟩ := hrest id List.mem_cons_self
    obtain ⟨hnot, hnodup⟩ := List.nodup_cons.mp hnodup
    obtain ⟨hsame, -⟩ := h.waits p.id List.mem_cons_self
    have hpa : a.instance? p.id = some p :=
      hsame.instance?.trans (he.linked.tables.instance?_eq_some hp)
    have hone : a.updateOne fuel p.id = (p.update fuel a.world).map a.put := by
      unfold updateOne
      rw [hpa]
    rw [updateAll_cons, hone]
    cases hr : p.update fuel e.world with
    | none =>
      -- What comes to no end alone comes to none among others.
      have hnone : p.update fuel a.world = none := by
        by_contra hsome
        obtain ⟨r', hr'⟩ := Option.ne_none_iff_exists'.mp hsome
        obtain ⟨hbehaves, -⟩ := he.apart p hp
        have hfor : a.world.SameFor p.id e.world := ⟨h.setting.symm, hsame.record?.symm⟩
        have hlive : p.IsLive a.world :=
          (h.linked.linked p (mem_instances_of_instance? hpa)).live
        obtain ⟨r, hr₀, -⟩ := Playback.update_sameFor hS hbehaves (he.linked.notSkipping p hp) hfor
          (he.commands.trans h.commands.symm) hlive hr'
        simp [hr] at hr₀
      rw [hnone]
      refine ⟨⟨fun hsome => by simp at hsome, fun hall => ?_⟩, fun a' ha' => by simp at ha'⟩
      have hsome := hall p hp List.mem_cons_self
      simp [hr] at hsome
    | some r =>
      obtain ⟨r', hr', hnext⟩ := h.next hS he hp hnot hr
      obtain ⟨hreturns, hamid⟩ :=
        ih hnext hnodup fun id hid => hrest id (List.mem_cons_of_mem _ hid)
      rw [hr', Option.map_some, Option.bind_some, flushAll_of_quiet hnext.commands,
        Option.bind_some]
      refine ⟨⟨fun hsome q hq hmem => ?_, fun hall => ?_⟩, hamid⟩
      · rcases List.mem_cons.mp hmem with hid | hmem
        · obtain rfl : q = p := List.inj_on_of_nodup_map he.linked.tables.ids hq hp hid
          simp [hr]
        · exact hreturns.mp hsome q hq hmem
      · exact hreturns.mpr fun q hq hmem => hall q hq (List.mem_cons_of_mem _ hmem)

omit [Behaviour β] in
/-- To let time pass is nothing to the tables. -/
theorem Linked.advanced (h : e.Linked) (nanoseconds : Nat) : (e.advanced nanoseconds).Linked :=
  h.beside rfl rfl rfl

theorem Undisturbed.advanced (h : e.Undisturbed S) (nanoseconds : Nat) :
    (e.advanced nanoseconds).Undisturbed S :=
  ⟨h.linked.advanced nanoseconds, h.commands, h.apart⟩

/-- A tick comes to an end if every instance does alone, and then it has updated each of them as if
it were alone. -/
theorem Undisturbed.tick (hS : SelfContained S) (h : e.Undisturbed S) (fuel nanoseconds : Nat) :
    ((e.tick fuel nanoseconds).isSome = true ↔
      ∀ p ∈ e.instances, (p.update fuel (e.advanced nanoseconds).world).isSome = true) ∧
    ∀ e', e.tick fuel nanoseconds = some e' → ∀ p ∈ e.instances, ∃ r,
      p.update fuel (e.advanced nanoseconds).world = some r ∧
      FaresAlike p.id e ((e.advanced nanoseconds).put r).collect e e' := by
  have hadvanced := h.advanced nanoseconds
  have hstart : (e.advanced nanoseconds).Amid fuel (e.advanced nanoseconds)
      (e.instances.map (·.id)) := by
    refine ⟨hadvanced.linked, h.commands, .refl _, fun id _ => ⟨⟨rfl, rfl⟩, rfl⟩, ?_⟩
    exact fun p hp hnot => absurd (List.mem_map_of_mem hp) hnot
  obtain ⟨hreturns, hamid⟩ := hstart.updateAll hS hadvanced h.linked.tables.ids fun id hid =>
    List.mem_map.mp hid
  have htick : e.tick fuel nanoseconds =
      ((e.advanced nanoseconds).updateAll fuel (e.instances.map (·.id))).map collect :=
    Option.map_eq_bind.symm
  refine ⟨?_, fun e' ht p hp => ?_⟩
  · rw [htick, Option.isSome_map, hreturns]
    exact ⟨fun hall p hp => hall p hp (List.mem_map_of_mem hp), fun hall p hp _ => hall p hp⟩
  · obtain ⟨a, ha, rfl⟩ := tick_cases ht
    have hend := hamid a ha
    obtain ⟨r, hr, hsame, hevents⟩ := hend.updated p hp List.not_mem_nil
    have hfound := hadvanced.linked.tables.instance?_eq_some hp
    have hlinked := hadvanced.linked.step (step_update hfound hr)
    refine ⟨r, hr, hsame.collect hlinked hend.linked, ?_⟩
    rw [World.news, World.news, world_collect, world_collect]
    exact congrArg (List.drop _) hevents

/-- The same instances in another order. -/
theorem Undisturbed.perm (h : e.Undisturbed S) {instances : List (Playback β)}
    (hperm : instances.Perm e.instances) : ({ e with instances } : Engine β).Undisturbed S := by
  have hmem : ∀ p, p ∈ instances → p ∈ e.instances := fun p hp => hperm.mem_iff.mp hp
  have htables := h.linked.tables
  refine ⟨⟨⟨?_, fun p hp => htables.fresh p (hmem p hp), htables.single, fun id hid => ?_⟩,
    fun p hp => h.linked.linked p (hmem p hp), fun p hp => h.linked.notSkipping p (hmem p hp)⟩,
    h.commands, fun p hp => h.apart p (hmem p hp)⟩
  · exact (hperm.map _).nodup_iff.mpr htables.ids
  · obtain ⟨p, hp, hpid⟩ := htables.named id hid
    exact ⟨p, hperm.mem_iff.mpr hp, hpid⟩

/-- Whoever else is there, an instance fares alike. -/
theorem Undisturbed.faresAlike (hS : SelfContained S) (he : e.Undisturbed S) (hf : f.Undisturbed S)
    {nanoseconds : Nat} (hp : e.instance? id = some p) (hpf : f.instance? id = some p)
    (hsame : e.world.SameFor id f.world) (het : e.tick fuel nanoseconds = some e')
    (hft : f.tick fuel nanoseconds = some f') : FaresAlike id e e' f f' := by
  obtain rfl := instance?_id hp
  have hmem := mem_instances_of_instance? hp
  obtain ⟨r, hr, hfares⟩ := (he.tick hS fuel nanoseconds).2 e' het p hmem
  obtain ⟨s, hs, hfares'⟩ :=
    (hf.tick hS fuel nanoseconds).2 f' hft p (mem_instances_of_instance? hpf)
  have hadvanced := he.linked.advanced nanoseconds
  have hadvanced' := hf.linked.advanced nanoseconds
  have hfor : (e.advanced nanoseconds).world.SameFor p.id (f.advanced nanoseconds).world :=
    ⟨⟨congrArg (·.advance nanoseconds) hsame.clock, hsame.vars, hsame.config, hsame.sceneLoading⟩,
      hsame.record?⟩
  obtain ⟨s', hs', hplayback, hleft, log, hgrows, hgrows'⟩ :=
    Playback.update_sameFor hS (he.apart p hmem).1 (he.linked.notSkipping p hmem) hfor
      (hf.commands.trans he.commands.symm) (hadvanced.linked p hmem).live hr
  obtain rfl := Option.some.inj (hs.symm.trans hs')
  have hfound : (e.advanced nanoseconds).instance? p.id = some p := hp
  have hfound' : (f.advanced nanoseconds).instance? p.id = some p := hpf
  have hput : ((e.advanced nanoseconds).put r).SameAt p.id ((f.advanced nanoseconds).put s) := by
    refine ⟨?_, hleft.record?⟩
    rw [instance?_put, instance?_put, hfound, hfound', hplayback]
  have hcollect := hput.collect (hadvanced.step (step_update hfound hr))
    (hadvanced'.step (step_update hfound' hs))
  refine ⟨(hfares.toSameAt.symm.trans hcollect).trans hfares'.toSameAt, ?_⟩
  have hnews : ∀ {g : Engine β} {r : Playback β × World β},
      (g.advanced nanoseconds).world.Grows p.id log r.2 →
      g.world.news ((g.advanced nanoseconds).put r).collect.world p.id = log.events := by
    intro g r hgrows
    refine World.news_of_eventsOf_eq_append ?_
    rw [world_collect]
    exact hgrows.events
  rw [hfares'.news, hfares.news, hnews hgrows, hnews hgrows']

/-- Whatever a host has done, as long as nodes raise no commands, leave the variables alone and do
not ask which graphs run, a tick returns if every instance can be updated alone at the later time.
What becomes of an instance and its record, and what is heard of it, is then what comes of updating
nobody but the instance. It does not depend on the order of the instances, nor on who else is
there. -/
theorem tick_independent (hS : SelfContained S) (h : e.Handled)
    (hb : ∀ p ∈ e.instances, p.Behaves S ∧ p.KeepsToItself) (fuel nanoseconds : Nat) :
    ((e.tick fuel nanoseconds).isSome = true ↔
      ∀ p ∈ e.instances, (p.update fuel (e.advanced nanoseconds).world).isSome = true) ∧
    ∀ e', e.tick fuel nanoseconds = some e' →
      (∀ p ∈ e.instances, ∃ r, p.update fuel (e.advanced nanoseconds).world = some r ∧
        FaresAlike p.id e ((e.advanced nanoseconds).put r).collect e e') ∧
      (∀ instances : List (Playback β), instances.Perm e.instances →
        ∃ f', ({ e with instances } : Engine β).tick fuel nanoseconds = some f' ∧
          ∀ p ∈ e.instances, FaresAlike p.id e e' e f') ∧
      ∀ f f', f.Undisturbed S → f.tick fuel nanoseconds = some f' → ∀ id p,
        e.instance? id = some p → f.instance? id = some p → e.world.SameFor id f.world →
        FaresAlike id e e' f f' := by
  have hundisturbed : e.Undisturbed S := h.undisturbed hb
  have hreturns := (hundisturbed.tick hS fuel nanoseconds).1
  refine ⟨hreturns, fun e' ht => ⟨(hundisturbed.tick hS fuel nanoseconds).2 e' ht,
    fun instances hperm => ?_, fun f f' hf hft id p hp hpf hsame =>
      hundisturbed.faresAlike hS hf hp hpf hsame ht hft⟩⟩
  have hother : ({ e with instances } : Engine β).Undisturbed S := hundisturbed.perm hperm
  have hreturns' : (({ e with instances } : Engine β).tick fuel nanoseconds).isSome = true := by
    refine (hother.tick hS fuel nanoseconds).1.mpr fun p hp => ?_
    exact hreturns.mp (by simp [ht]) p (hperm.mem_iff.mp hp)
  obtain ⟨f', hf'⟩ := Option.isSome_iff_exists.mp hreturns'
  refine ⟨f', hf', fun p hp => ?_⟩
  have hfound := h.linked.tables.instance?_eq_some hp
  have hfound' : ({ e with instances } : Engine β).instance? p.id = some p :=
    hother.linked.tables.instance?_eq_some (hperm.mem_iff.mpr hp)
  have hfares := hundisturbed.faresAlike hS hother hfound hfound' ⟨.refl _, rfl⟩ ht hf'
  exact ⟨hfares.toSameAt, hfares.news⟩

/-- A kind of nodes that take their outputs in turn. -/
def alternation : NodeKind Builtin where
  name := "alternation"
  validate _ := .ok ()
  prepare _ := .ok (.cycle ⟨2, true, 0⟩)

/-- A graph that comes back to its second node once, with as many instances as are asked for. -/
def lap : Graph where
  id := "lap"
  name := "lap"
  nodes := [{ kind := "alternation" }, { kind := "alternation", endings := [.goto 1, .stop] }]
  settings := { multiInstance := true }

/-- Two instances that come to their end in the same tick. -/
theorem reachable_laps : ∃ e e' : Engine Builtin, Reachable (fun _ => True) e ∧
    e.instances.map (·.id) = [0, 1] ∧ (∀ p ∈ e.instances, p.isSelfContained = true) ∧
    e.tick 9 0 = some e' ∧ e.world.news e'.world 0 = [.ended false] := by
  have hruns : (((ofKinds {} [alternation]).register lap).perform 9
      (.trigger "lap" { start := some 1 })).bind (fun e =>
        (e.perform 9 (.trigger "lap" { start := some 1 })).bind fun e =>
          (e.tick 9 0).map fun e' => (e.instances.map (·.id),
            e.instances.all (·.isSelfContained), e.world.news e'.world 0)) =
      some ([0, 1], true, [.ended false]) := by
    decide +kernel
  simp only [Option.bind_eq_some_iff, Option.map_eq_some_iff, Prod.mk.injEq] at hruns
  obtain ⟨e₀, h₀, e, h, e', ht, hids, hall, hnews⟩ := hruns
  have hregistered : Reachable (fun _ => True) ((ofKinds {} [alternation]).register lap) :=
    (Reachable.start {} [alternation]).register lap trivial
  exact ⟨e, e', (hregistered.perform trivial h₀).perform trivial h, hids,
    List.all_eq_true.mp hall, ht, hnews⟩

/-- The laps come to their end in either order. -/
theorem tick_independent_laps : ∃ e e' f' : Engine Builtin, e.Handled ∧
    e.instances.map (·.id) = [0, 1] ∧ e.tick 9 0 = some e' ∧
    ({ e with instances := e.instances.reverse } : Engine Builtin).tick 9 0 = some f' ∧
    (∀ p ∈ e.instances, FaresAlike p.id e e' e f') ∧
    e.world.news f'.world 0 = [.ended false] := by
  obtain ⟨e, e', he, hids, hself, ht, hnews⟩ := reachable_laps
  have hapart : ∀ p ∈ e.instances, p.Behaves (·.isSelfContained = true) ∧ p.KeepsToItself :=
    fun p hp => Playback.behaves_of_isSelfContained (hself p hp)
  obtain ⟨-, horder, -⟩ :=
    (tick_independent Builtin.selfContained he.handled hapart 9 0).2 e' ht
  obtain ⟨f', hf', hsame⟩ := horder e.instances.reverse e.instances.reverse_perm
  refine ⟨e, e', f', he.handled, hids, ht, hf', hsame, ?_⟩
  have hmem : 0 ∈ e.instances.map (·.id) := by simp [hids]
  obtain ⟨p, hp, hid⟩ := List.mem_map.mp hmem
  have hfirst := (hsame p hp).news
  rw [hid, hnews] at hfirst
  exact hfirst

end Cutscene.Engine
