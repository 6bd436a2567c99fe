import Cutscene.Proofs.Engine.Consistent
import Cutscene.Proofs.Engine.Editions
import Cutscene.Proofs.Engine.Saving
import Cutscene.Proofs.Playback.Resumed

/-!
# Where paused runs go on

`Engine.resumePaused` resumes the paused runs of a graph one after the other (`Engine.Resumes`):
first those that belong to instances, each on its own, and then those that come from a save, each on
the instance that the graph gets. A graph that may have several instances gets a new one each time,
but the runs of one with a single instance have to share it, and a run that still goes on there when
the next one is resumed is killed. `Engine.Midway` is what is true in between, and
`Midway.revives` reads off what the whole call comes to.
-/

namespace Cutscene

variable {β : Type}

/-- A paused run that has been resumed, on which instance, and whether the run that was going on
there had to be killed. -/
structure Resumption where
  record : Record
  id : Nat
  ousts : Bool

theorem Record.resumePoints_ne_nil {r : Record} (h : r.isPaused = true) : r.resumePoints ≠ [] := by
  rintro hnil
  simp [isPaused, hnil] at h

theorem Record.running_of_isPaused {r : Record} (h : r.isPaused = true) : r.running = false := by
  unfold isPaused at h
  simpa using (Bool.and_eq_true_iff.mp h).1

namespace Engine

/-- The paused records of a graph that belong to an instance. -/
def pausedAttached (e : Engine β) (graph : String) : List Record :=
  e.world.registry.records.filter fun r => r.playback.isSome && (r.graph = graph && r.isPaused)

/-- The paused records of a graph that come from a save. -/
def pausedDetached (e : Engine β) (graph : String) : List Record :=
  e.world.registry.records.filter (Registry.isDetachedPaused graph)

/-- The instance is ready on which a paused run goes on: the one that the record belongs to, or the
one that the graph gets, which is told the conversation. -/
inductive Readies (graph : String) (e : Engine β) (r : Record) (id : Nat) : Engine β → Prop
  | attached (h : r.playback = some id) : Readies graph e r id e
  | restored {a : Engine β} (hnone : r.playback = none)
    (hs : (e.withRegistry (e.world.registry.dropDetachedPaused graph)).spawn graph = .ok (a, id)) :
    Readies graph e r id
      (a.modifyInstance id fun p => ({ p with conversation := r.conversation }, []))

/-- Paused runs of a graph are resumed one after the other. -/
inductive Resumes [Behaviour β] (fuel : Nat) (graph : String) (rerun : Bool) (e : Engine β) :
    List Resumption → Engine β → Prop
  | none : Resumes fuel graph rerun e [] e
  | next {resumed : List Resumption} {a b : Engine β} {x : Resumption} {p : Playback β}
    {r : Playback β × World β} (h : Resumes fuel graph rerun e resumed a)
    (hready : Readies graph a x.record x.id b) (hp : b.instance? x.id = some p)
    (housts : x.ousts = decide (p.phase = .running))
    (hr : p.resume fuel b.world x.record.start x.record.resumePoints x.record.parameters rerun =
      some r) :
    Resumes fuel graph rerun e (resumed ++ [x]) (b.put r)

/-- One of the paused runs comes to no end once it has been resumed. -/
def Stalls [Behaviour β] (fuel : Nat) (graph : String) (rerun : Bool) (e : Engine β) : Prop :=
  ∃ resumed a, ∃ r ∈ e.pausedAttached graph ++ e.pausedDetached graph, ∃ id b p,
    e.Resumes fuel graph rerun resumed a ∧ a.Readies graph r id b ∧ b.instance? id = some p ∧
    p.resume fuel b.world r.start r.resumePoints r.parameters rerun = none

/-- A run may be resumed on an instance once others have been. -/
structure TakesOn (e : Engine β) (graph : String) (resumed : List Resumption) (y : Resumption) :
    Prop where
  attached : ∀ id, y.record.playback = some id → y.id = id
  /-- What comes from a save gets an instance of a graph with a single one, or a new one. -/
  restored : y.record.playback = none →
    e.IsSingle graph ∧ (∃ p ∈ e.instances, p.id = y.id ∧ p.graph = graph) ∨ e.nextId ≤ y.id
  /-- Only a graph with a single instance has two runs go on on one. -/
  apart : ∀ x ∈ resumed, x.id = y.id → e.IsSingle graph ∧ y.record.playback = none
  /-- Only there another run is killed, one that was there already or that has been resumed
  before. -/
  ousts : y.ousts = true → e.IsSingle graph ∧ y.record.playback = none ∧
    ((∃ p ∈ e.instances, p.id = y.id ∧ p.graph = graph) ∨ ∃ x ∈ resumed, x.id = y.id)

/-- All runs have been resumed on instances that may take them on. -/
inductive Fits (e : Engine β) (graph : String) : List Resumption → Prop
  | nil : Fits e graph []
  | concat {resumed : List Resumption} {y : Resumption} (h : Fits e graph resumed)
    (hy : e.TakesOn graph resumed y) : Fits e graph (resumed ++ [y])

/-- What becomes of the paused runs of a graph when they are resumed. -/
structure Revives (e e' : Engine β) (graph : String) (resumed : List Resumption) : Prop where
  all : resumed.map (·.record) = e.pausedAttached graph ++ e.pausedDetached graph
  fits : e.Fits graph resumed
  /-- On a single instance all those go on that come from a save. -/
  shared : e.IsSingle graph → ∀ x ∈ resumed, x.record.playback = none → ∀ y ∈ resumed,
    y.record.playback = none → x.id = y.id
  /-- Observers hear of each run that is resumed, -/
  heard : ∀ id, (e.world.news e'.world id).count .resumed = resumed.countP (·.id = id)
  /-- and of each that is killed for it. -/
  killed : ∀ id, (e.world.news e'.world id).count (.ended true) =
    resumed.countP fun x => x.id = id && x.ousts
  /-- None is left paused. -/
  left : ∀ r ∈ e'.world.registry.records, r.graph = graph → r.isPaused = false

/-- Every paused run of the graph can have an instance to itself: there may be several, none of the
runs comes from a save, or the only one that does gets the first instance that there is. -/
def HasRoom (e : Engine β) (graph : String) : Prop :=
  e.IsSingle graph → e.pausedDetached graph = [] ∨
    (e.pausedDetached graph).length = 1 ∧ ∀ p ∈ e.instances, p.graph ≠ graph

/-- An engine in the middle of resuming the paused runs of a graph, and those that have been resumed
since it was `e`. -/
structure Midway (e : Engine β) (graph : String) (resumed : List Resumption) (a : Engine β) :
    Prop where
  fits : e.Fits graph resumed
  linked : a.Linked
  filed : a.Filed
  graphs : a.graphs = e.graphs
  nextId : e.nextId ≤ a.nextId
  sources : ∀ q ∈ a.instances, (∃ p ∈ e.instances, p.id = q.id ∧ p.graph = q.graph) ∨
    e.nextId ≤ q.id ∧ (q.phase = .idle ∨ ∃ x ∈ resumed, x.id = q.id)
  present : ∀ x ∈ resumed, x.id < a.nextId
  first : ∀ x ∈ resumed, x.record.playback = none → e.IsSingle graph →
    (a.instancesOf graph).head? = some x.id
  /-- The records of the others are what they were. -/
  waits : ∀ id, (∀ x ∈ resumed, x.id ≠ id) →
    a.world.registry.record? id = e.world.registry.record? id
  running : ∀ x ∈ resumed, ∀ r, a.world.registry.record? x.id = some r → r.running = true
  heard : ∀ id, ∃ kinds, a.world.eventsOf id = e.world.eventsOf id ++ kinds ∧
    kinds.count .resumed = resumed.countP (·.id = id) ∧
    kinds.count (.ended true) = resumed.countP fun x => x.id = id && x.ousts

variable {e e' a a' b : Engine β} {graph : String} {id : Nat} {resumed : List Resumption}

/-! ### The instances of a graph -/

/-- Where an instance changes, the instances of graphs are the same. -/
theorem instancesOf_put (h : e.Tables) {p : Playback β} (hp : e.instance? id = some p)
    {r : Playback β × World β} (hid : r.1.id = p.id) (hgraph : r.1.graph = p.graph)
    (graph : String) : (e.put r).instancesOf graph = e.instancesOf graph := by
  have hsame : ∀ q ∈ e.instances, (if q.id = r.1.id then r.1 else q).graph = q.graph := by
    intro q hq
    split_ifs with hqid
    · have hfound := h.instance?_eq_some hq
      rw [hqid, hid, instance?_self hp] at hfound
      rw [hgraph, Option.some.inj hfound]
    · rfl
  unfold instancesOf put
  rw [List.filter_map, List.map_map]
  have hfilter : e.instances.filter ((fun q : Playback β => decide (q.graph = graph)) ∘
      fun q => if q.id = r.1.id then r.1 else q) = e.instances.filter (·.graph = graph) :=
    List.filter_congr fun q hq => by simp [hsame q hq]
  rw [hfilter]
  refine List.map_congr_left fun q _ => ?_
  simp only [Function.comp_apply]
  split_ifs with hqid
  · exact hqid.symm
  · rfl

/-- A graph with a single instance gets the first one that there is. -/
theorem head?_instancesOf_spawn (hf : e.Filed) (hsingle : e.IsSingle graph)
    (hs : e.spawn graph = .ok (e', id)) : (e'.instancesOf graph).head? = some id := by
  obtain ⟨edition, hg, hm⟩ := hsingle
  cases hfind : e.instances.find? (·.graph = graph) with
  | some p =>
    simp only [spawn, hg, hm, Bool.false_eq_true, if_false, hfind, Except.ok.injEq,
      Prod.mk.injEq] at hs
    obtain ⟨rfl, rfl⟩ := hs
    rw [instancesOf, List.head?_map, List.head?_filter, hfind]
    rfl
  | none =>
    have hnone : ∀ p ∈ e.instances, p.graph ≠ graph := fun p hp => by
      simpa using List.find?_eq_none.mp hfind p hp
    rcases spawn_cases hs with
      ⟨-, -, p, hp, hgraph, -⟩ | ⟨edition', nodes, notices, parked, hg', -, -, -, heq⟩
    · exact absurd hgraph (hnone p hp)
    · obtain ⟨rfl, rfl⟩ := Prod.mk.inj heq
      have hempty : e.instances.filter (·.graph = graph) = [] :=
        List.filter_eq_nil_iff.mpr fun p hp => by simpa using hnone p hp
      have htitled := hf.titled graph edition' hg'
      change ((e.instances ++ [_]).filter _ |>.map _).head? = _
      rw [List.filter_append, hempty]
      simp [htitled]

/-! ### To make an instance ready -/

/-- Before anything has been resumed. -/
theorem Handled.midway [Behaviour β] (h : e.Handled) (graph : String) : e.Midway graph [] e where
  fits := .nil
  linked := h.linked
  filed := h.filed
  graphs := rfl
  nextId := Nat.le_refl _
  sources p hp := Or.inl ⟨p, hp, rfl, rfl⟩
  present _ hx := absurd hx List.not_mem_nil
  first _ hx := absurd hx List.not_mem_nil
  waits _ _ := rfl
  running _ hx := absurd hx List.not_mem_nil
  heard _ := ⟨[], (List.append_nil _).symm, rfl, rfl⟩

variable [Behaviour β]

/-- A record from a save is no record of an instance. -/
theorem Midway.dropDetachedPaused (h : e.Midway graph resumed a) :
    e.Midway graph resumed (a.withRegistry (a.world.registry.dropDetachedPaused graph)) := by
  have hstep : Step a (a.withRegistry (a.world.registry.dropDetachedPaused graph)) :=
    .trim (.dropDetachedPaused graph)
  refine { h with
    linked := h.linked.step hstep
    filed := h.filed.step hstep
    waits := fun id hid => ?_
    running := fun x hx r hr => ?_ }
  · exact (Registry.record?_dropDetachedPaused ..).trans (h.waits id hid)
  · exact h.running x hx r ((Registry.record?_dropDetachedPaused ..).symm.trans hr)

/-- To give the graph an instance resumes nothing and spoils nothing. -/
theorem Midway.spawn (h : e.Midway graph resumed a) (hs : a.spawn graph = .ok (a', id)) :
    e.Midway graph resumed a' := by
  have hlinked := h.linked.step (.spawn hs)
  have hfiled := h.filed.step (.spawn hs)
  rcases spawn_cases hs with ⟨rfl, -⟩ | ⟨edition, nodes, notices, parked, hg, -, -, -, heq⟩
  · exact h
  · obtain rfl : a' = _ := congrArg Prod.fst heq
    have hnoticed := a.world.quiet_noticeAll notices
    refine { h with
      linked := hlinked
      filed := hfiled
      nextId := Nat.le_succ_of_le h.nextId
      sources := fun q hq => ?_
      present := fun x hx => Nat.lt_succ_of_lt (h.present x hx)
      first := fun x hx hnone hsingle => ?_
      waits := fun id hid => ?_
      running := fun x hx r hr => ?_
      heard := fun id => ?_ }
    · rcases List.mem_append.mp hq with hold | hnew
      · exact h.sources q hold
      · rw [List.mem_singleton.mp hnew]
        exact Or.inr ⟨h.nextId, Or.inl rfl⟩
    · -- The new instance comes behind the others.
      have hhead := h.first x hx hnone hsingle
      unfold instancesOf at hhead ⊢
      change ((a.instances ++ [_]).filter _ |>.map _).head? = _
      rw [List.filter_append, List.map_append, List.head?_append, hhead, Option.some_or]
    · rw [← h.waits id hid, registry_spawn hs]
    · rw [registry_spawn hs] at hr
      exact h.running x hx r hr
    · obtain ⟨kinds, hevents, hcounts⟩ := h.heard id
      exact ⟨kinds, (hnoticed.events id).trans hevents, hcounts⟩

/-- Neither does it to tell an instance a conversation. -/
theorem Midway.told (h : e.Midway graph resumed a) {p : Playback β} (hp : a.instance? id = some p)
    (conversation : Option String) :
    e.Midway graph resumed (a.put ({ p with conversation }, a.world)) := by
  have hstep : Step a (a.put ({ p with conversation }, a.world)) :=
    .told (instance?_self hp) p.parameters conversation
  refine { h with
    linked := h.linked.step hstep
    filed := h.filed.step hstep
    sources := fun q hq => ?_
    first := fun x hx hnone hsingle => ?_ }
  · rcases mem_instances_put hq with rfl | ⟨hq, -⟩
    · exact h.sources p (mem_instances_of_instance? hp)
    · exact h.sources q hq
  · rw [instancesOf_put h.linked.tables hp rfl rfl]
    exact h.first x hx hnone hsingle

/-! ### To resume a run -/

variable {fuel : Nat} {rerun : Bool} {x : Resumption}

omit [Behaviour β] in
/-- What is heard when a run is resumed: of the run that it is, of the one that gives way that it is
killed, and nothing of the others. -/
theorem Midway.hears (h : e.Midway graph resumed a) {p : Playback β}
    {r : Playback β × World β} (hid : p.id = x.id) (housts : x.ousts = decide (p.phase = .running))
    (hstages : Stages (p, a.world) r) (hleaves : p.ResumeLeaves a.world r) (j : Nat) :
    ∃ kinds, r.2.eventsOf j = e.world.eventsOf j ++ kinds ∧
      kinds.count .resumed = (resumed ++ [x]).countP (·.id = j) ∧
      kinds.count (.ended true) = (resumed ++ [x]).countP fun x => x.id = j && x.ousts := by
  obtain ⟨kinds, hevents, hresumed, hkilled⟩ := h.heard j
  rw [List.countP_append, List.countP_append]
  by_cases hne : j = x.id
  · obtain ⟨more, hmore, hone, hforced⟩ := hleaves.counts
    rw [hid, ← hne, hevents, List.append_assoc] at hmore
    refine ⟨_, hmore, ?_, ?_⟩
    · rw [List.count_append, hresumed, hone]
      simp [hne]
    · rw [List.count_append, hkilled, hforced]
      simp [hne, housts]
  · refine ⟨kinds, ?_, ?_, ?_⟩
    · rw [← hevents]
      exact hstages.eventsOf_eq (hid ▸ hne)
    · simp [hresumed, Ne.symm hne]
    · simp [hkilled, Ne.symm hne]

/-- A run goes on on an instance that may take it on. -/
theorem Midway.act (h : e.Midway graph resumed a) (hx : e.TakesOn graph resumed x)
    {p : Playback β} (hp : a.instance? x.id = some p)
    (housts : x.ousts = decide (p.phase = .running)) (hpaused : x.record.isPaused = true)
    (hfirst : x.record.playback = none → e.IsSingle graph →
      (a.instancesOf graph).head? = some x.id)
    {r : Playback β × World β}
    (hr : p.resume fuel a.world x.record.start x.record.resumePoints x.record.parameters rerun =
      some r) : e.Midway graph (resumed ++ [x]) (a.put r) := by
  have hpid := instance?_id hp
  have hmem := mem_instances_of_instance? hp
  have hstages := Playback.stages_resume hr
  have hid : r.1.id = p.id := hstages.id_eq
  have hgraph : r.1.graph = p.graph := congrArg Playback.Identity.graph hstages.identity_eq
  have hleaves := Playback.resume_leaves (Record.resumePoints_ne_nil hpaused) hr
  have hperform : p.perform fuel a.world
      (.resume x.record.start x.record.resumePoints x.record.parameters rerun) = some r := hr
  have hstep : Step a (a.put r) := .act (instance?_self hp) rfl hperform
  have hothers : ∀ j, j ≠ x.id →
      (a.put r).world.registry.record? j = a.world.registry.record? j := fun j hne =>
    Playback.record?_of_stages hstages (hpid ▸ hne)
  refine {
    fits := h.fits.concat hx
    linked := h.linked.step hstep
    filed := h.filed.step hstep
    graphs := h.graphs
    nextId := h.nextId
    sources := fun q hq => ?sources
    present := fun y hy => ?present
    first := fun y hy hnone hsingle => ?first
    waits := fun j hj => ?waits
    running := fun y hy record hrecord => ?running
    heard := h.hears hpid housts hstages hleaves }
  case sources =>
    rcases mem_instances_put hq with rfl | ⟨hq, -⟩
    · rw [hid, hgraph]
      refine (h.sources p hmem).imp_right fun hnew => ⟨hnew.1, Or.inr ⟨x, ?_, hpid.symm⟩⟩
      exact List.mem_append_right _ List.mem_cons_self
    · refine (h.sources q hq).imp_right fun hnew => ⟨hnew.1, hnew.2.imp_right ?_⟩
      rintro ⟨y, hy, hyid⟩
      exact ⟨y, List.mem_append_left _ hy, hyid⟩
  case present =>
    rcases List.mem_append.mp hy with hy | hy
    · exact h.present y hy
    · rw [List.mem_singleton.mp hy, ← hpid]
      exact h.linked.tables.fresh p hmem
  case first =>
    rw [instancesOf_put h.linked.tables hp hid hgraph]
    rcases List.mem_append.mp hy with hy | hy
    · exact h.first y hy hnone hsingle
    · obtain rfl := List.mem_singleton.mp hy
      exact hfirst hnone hsingle
  case waits =>
    have hne : j ≠ x.id := fun heq => hj x (by simp) heq.symm
    rw [hothers j hne]
    exact h.waits j fun y hy => hj y (List.mem_append_left _ hy)
  case running =>
    by_cases hne : y.id = x.id
    · -- Whatever was going on there before, the record is now one of the run that is resumed.
      apply hleaves.running record
      rw [hpid, ← hne]
      exact hrecord
    · rw [hothers y.id hne] at hrecord
      rcases List.mem_append.mp hy with hy | hy
      · exact h.running y hy record hrecord
      · exact absurd (congrArg Resumption.id (List.mem_singleton.mp hy)) hne

omit [Behaviour β] in
theorem Fits.id_eq (h : e.Fits graph resumed) (hx : x ∈ resumed)
    (hid : x.record.playback = some id) : x.id = id := by
  induction h with
  | nil => exact absurd hx List.not_mem_nil
  | concat _ hy ih =>
    rcases List.mem_append.mp hx with hx | hx
    · exact ih hx
    · obtain rfl := List.mem_singleton.mp hx
      exact hy.attached id hid

omit [Behaviour β] in
theorem mem_pausedAttached {r : Record} : r ∈ e.pausedAttached graph ↔
    r ∈ e.world.registry.records ∧ r.playback.isSome = true ∧ r.graph = graph ∧
      r.isPaused = true := by
  unfold pausedAttached
  simp [List.mem_filter]

omit [Behaviour β] in
theorem mem_pausedDetached {r : Record} : r ∈ e.pausedDetached graph ↔
    r ∈ e.world.registry.records ∧ r.playback = none ∧ r.graph = graph ∧ r.isPaused = true := by
  unfold pausedDetached Registry.isDetachedPaused
  simp [List.mem_filter, and_assoc]

omit [Behaviour β] in
/-- No instance has two records, so none has been resumed yet on the instance of the next one. -/
theorem Fits.ne_id (h : e.Fits graph resumed) (he : e.Tables) {r : Record} {rest : List Record}
    (hall : resumed.map (·.record) ++ r :: rest = e.pausedAttached graph)
    (hid : r.playback = some id) (hx : x ∈ resumed) : x.id ≠ id := by
  intro hxid
  have hsub : ((e.pausedAttached graph).filterMap (·.playback)).Sublist
      e.world.registry.attached := List.filter_sublist.filterMap _
  have hnodup := hsub.nodup he.single
  rw [← hall, List.filterMap_append, List.nodup_append] at hnodup
  have hrecord : x.record ∈ resumed.map (·.record) := List.mem_map_of_mem hx
  have hattached : x.record ∈ e.pausedAttached graph := by
    rw [← hall]
    exact List.mem_append_left _ hrecord
  obtain ⟨j, hj⟩ := Option.isSome_iff_exists.mp (mem_pausedAttached.mp hattached).2.1
  have hjid : j = id := (h.id_eq hx hj).symm.trans hxid
  exact hnodup.2.2 id (List.mem_filterMap.mpr ⟨x.record, hrecord, hjid ▸ hj⟩) id
    (List.mem_filterMap.mpr ⟨r, List.mem_cons_self, hid⟩) rfl

omit [Behaviour β] in
/-- A run that belongs to an instance goes on there, where nothing runs. -/
theorem Midway.takesOn_attached (h : e.Midway graph resumed a) (he : e.Linked) {r : Record}
    (hr : r ∈ e.pausedAttached graph) (hid : r.playback = some id)
    (hnot : ∀ x ∈ resumed, x.id ≠ id) :
    ∃ p, a.instance? id = some p ∧ p.phase ≠ .running ∧ e.TakesOn graph resumed ⟨r, id, false⟩ := by
  obtain ⟨hmem, -, -, hpaused⟩ := mem_pausedAttached.mp hr
  have hrecord : a.world.registry.record? id = some r :=
    (h.waits id hnot).trans ((Registry.record?_eq_some_iff he.tables.single).mpr ⟨hmem, hid⟩)
  obtain ⟨hmem', -⟩ := Registry.mem_records_of_record? hrecord
  obtain ⟨p, hp, rfl⟩ := h.linked.tables.named id (Registry.mem_attached.mpr ⟨r, hmem', hid⟩)
  refine ⟨p, h.linked.tables.instance?_eq_some hp, fun hrun => ?_, ?_, fun hnone => ?_,
    fun x hx heq => absurd heq (hnot x hx), fun hforced => absurd hforced Bool.false_ne_true⟩
  · -- The record of an instance that runs is none of a paused run.
    obtain ⟨q, hq, hqrun⟩ := Registry.isLive_iff.mp ((h.linked.linked p hp).live hrun)
    obtain rfl := Option.some.inj (hrecord.symm.trans hq)
    rw [Record.running_of_isPaused hpaused] at hqrun
    exact absurd hqrun Bool.false_ne_true
  · exact fun j hj => Option.some.inj (hid.symm.trans hj)
  · exact absurd (hid.symm.trans hnone) (by simp)

/-- A run that comes from a save goes on on the instance that the graph gets. -/
theorem Midway.takesOn_restored (h : e.Midway graph resumed a) {r : Record}
    (hnone : r.playback = none) (hs : a.spawn graph = .ok (a', id)) {p : Playback β}
    (hp : a'.instance? id = some p) :
    e.TakesOn graph resumed ⟨r, id, decide (p.phase = .running)⟩ := by
  have hattached : ∀ j, r.playback = some j → id = j := by simp [hnone]
  have hlinked := h.linked.step (.spawn hs)
  rcases spawn_cases hs with
    ⟨rfl, hsingle, q, hq, hgraph, rfl⟩ | ⟨edition, nodes, notices, parked, hg, -, -, -, heq⟩
  · obtain rfl := Option.some.inj ((hlinked.tables.instance?_eq_some hq).symm.trans hp)
    have hsingle' : e.IsSingle graph := by
      unfold IsSingle at hsingle ⊢
      rwa [h.graphs] at hsingle
    refine ⟨hattached, fun _ => ?_, fun _ _ _ => ⟨hsingle', hnone⟩,
      fun hforced => ⟨hsingle', hnone, ?_⟩⟩
    · rcases h.sources q hq with ⟨p, hp, hid, hsame⟩ | ⟨hnew, -⟩
      · exact Or.inl ⟨hsingle', p, hp, hid, hsame.trans hgraph⟩
      · exact Or.inr hnew
    · rcases h.sources q hq with ⟨p, hp, hid, hsame⟩ | ⟨-, hidle | hbefore⟩
      · exact Or.inl ⟨p, hp, hid, hsame.trans hgraph⟩
      · simp [hidle] at hforced
      · exact Or.inr hbefore
  · obtain ⟨rfl, rfl⟩ := Prod.mk.inj heq
    have hfound := hlinked.tables.instance?_eq_some
      (List.mem_append_right _ List.mem_cons_self)
    obtain rfl := Option.some.inj (hfound.symm.trans hp)
    refine ⟨hattached, fun _ => Or.inr h.nextId, fun x hx hxid => ?_,
      fun hforced => by simp at hforced⟩
    -- The instance has been made for the run, so none has been resumed there.
    have hlt := h.present x hx
    have hnext : x.id = a.nextId := hxid
    omega

/-- An instance is made ready for a run that comes from a save, and the record is taken. -/
theorem Midway.readies (h : e.Midway graph resumed a) (hg : e.graphs.contains graph = true)
    {r : Record} (hnone : r.playback = none) :
    ∃ b id p, a.Readies graph r id b ∧ b.instance? id = some p ∧ e.Midway graph resumed b ∧
      e.TakesOn graph resumed ⟨r, id, decide (p.phase = .running)⟩ ∧
      (e.IsSingle graph → (b.instancesOf graph).head? = some id) ∧
      b.world.registry = a.world.registry.dropDetachedPaused graph := by
  have hdropped := h.dropDetachedPaused
  obtain ⟨a₁, id, p, hs, hp, -⟩ := exists_spawn (hdropped.graphs ▸ hg)
  have hspawned := hdropped.spawn hs
  have htakes := hdropped.takesOn_restored hnone hs hp
  let told : Playback β := { p with conversation := r.conversation }
  have hb : a₁.put (told, a₁.world) =
      a₁.modifyInstance id fun p => ({ p with conversation := r.conversation }, []) := by
    unfold modifyInstance
    rw [hp]
    rfl
  refine ⟨a₁.put (told, a₁.world), id, told, hb ▸ .restored hnone hs, ?_,
    hspawned.told hp r.conversation, htakes, fun hsingle => ?_, registry_spawn hs⟩
  · rw [instance?_put, hp, Option.map_some]
    exact congrArg some (if_pos rfl)
  · rw [instancesOf_put hspawned.linked.tables hp rfl rfl]
    refine head?_instancesOf_spawn hdropped.filed ?_ hs
    unfold IsSingle at hsingle ⊢
    rwa [hdropped.graphs]

/-! ### One run after the other -/

theorem resumeAttached_cons {r : Record} {p : Playback β} (hid : r.playback = some id)
    (hp : a.instance? id = some p) (rest : List Record) :
    a.resumeAttached fuel rerun (r :: rest) =
      (p.resume fuel a.world r.start r.resumePoints r.parameters rerun).bind fun s =>
        ((a.put s).resumeAttached fuel rerun rest).map fun t => (t.1, id :: t.2) := by
  simp only [Engine.resumeAttached, resumeRecord, hid, hp]
  cases p.resume fuel a.world r.start r.resumePoints r.parameters rerun with
  | none => rfl
  | some s => cases hrest : (a.put s).resumeAttached fuel rerun rest <;> simp [hrest]

/-- Records that come from a save are passed over at first. -/
theorem resumeAttached_filter (records : List Record) :
    a.resumeAttached fuel rerun records =
      a.resumeAttached fuel rerun (records.filter (·.playback.isSome)) := by
  induction records generalizing a with
  | nil => rfl
  | cons r rest ih =>
    cases hid : r.playback with
    | none =>
      rw [List.filter_cons_of_neg (by simp [hid]), ← ih]
      simp only [Engine.resumeAttached, hid]
    | some id =>
      rw [List.filter_cons_of_pos (by simp [hid])]
      simp only [Engine.resumeAttached, hid, ih]

/-- The runs that belong to instances are resumed. -/
theorem Midway.resumeAttached {rest : List Record} (h : e.Midway graph resumed a) (he : e.Linked)
    (hlog : e.Resumes fuel graph rerun resumed a)
    (hall : resumed.map (·.record) ++ rest = e.pausedAttached graph)
    (hdetached : a.world.registry.detached = e.world.registry.detached) :
    (a.resumeAttached fuel rerun rest = none → e.Stalls fuel graph rerun) ∧
    ∀ a' ids, a.resumeAttached fuel rerun rest = some (a', ids) → ∃ resumed',
      resumed'.map (·.id) = resumed.map (·.id) ++ ids ∧
      resumed'.map (·.record) = e.pausedAttached graph ∧ e.Midway graph resumed' a' ∧
      e.Resumes fuel graph rerun resumed' a' ∧
      a'.world.registry.detached = e.world.registry.detached := by
  induction rest generalizing resumed a with
  | nil =>
    refine ⟨fun hnone => by simp [Engine.resumeAttached] at hnone, fun a' ids hr => ?_⟩
    obtain ⟨rfl, rfl⟩ := Prod.mk.inj (Option.some.inj hr)
    exact ⟨resumed, (List.append_nil _).symm, (List.append_nil _).symm.trans hall, h, hlog,
      hdetached⟩
  | cons r rest ih =>
    have hr : r ∈ e.pausedAttached graph := by simp [← hall]
    obtain ⟨-, hsome, -, hpaused⟩ := mem_pausedAttached.mp hr
    obtain ⟨id, hid⟩ := Option.isSome_iff_exists.mp hsome
    obtain ⟨p, hp, hstill, htakes⟩ := h.takesOn_attached he hr hid fun x hx =>
      h.fits.ne_id he.tables hall hid hx
    rw [resumeAttached_cons hid hp]
    cases hs : p.resume fuel a.world r.start r.resumePoints r.parameters rerun with
    | none =>
      refine ⟨fun _ => ⟨resumed, a, r, List.mem_append_left _ hr, id, a, p, hlog, .attached hid, hp,
        hs⟩, fun a' ids hnone => by simp at hnone⟩
    | some s =>
      have housts : false = decide (p.phase = .running) := by simp [hstill]
      have hnext := h.act htakes hp housts hpaused
        (fun hnone => absurd (hid.symm.trans hnone) (by simp)) hs
      have hlog' : e.Resumes fuel graph rerun (resumed ++ [⟨r, id, false⟩]) (a.put s) :=
        .next hlog (.attached hid) hp housts hs
      have hdetached' : (a.put s).world.registry.detached = e.world.registry.detached :=
        (Playback.detached_of_stages (Playback.stages_resume hs)).trans hdetached
      obtain ⟨hstalls, hends⟩ := ih hnext hlog' (by simp [← hall]) hdetached'
      rw [Option.bind_some]
      refine ⟨fun hnone => hstalls (Option.map_eq_none_iff.mp hnone), fun a' ids hmore => ?_⟩
      obtain ⟨⟨b, more⟩, hb, heq⟩ := Option.map_eq_some_iff.mp hmore
      obtain ⟨rfl, rfl⟩ := Prod.mk.inj heq
      obtain ⟨resumed', hids, hrest⟩ := hends b more hb
      exact ⟨resumed', by simp [hids], hrest⟩

theorem resumeDetached_succ {r : Record} {rest : List Record} {p : Playback β}
    (hrest : a.pausedDetached graph = r :: rest) (hnone : r.playback = none)
    (hready : a.Readies graph r id b) (hp : b.instance? id = some p) (count : Nat) :
    resumeDetached fuel rerun graph (count + 1) a =
      (p.resume fuel b.world r.start r.resumePoints r.parameters rerun).bind fun s =>
        (resumeDetached fuel rerun graph count (b.put s)).map fun t => (t.1, id :: t.2) := by
  have hfirst : a.world.registry.detachedPaused? graph = some r := by
    unfold pausedDetached at hrest
    rw [Registry.detachedPaused?, ← List.head?_filter, hrest]
    rfl
  cases hready with
  | attached hid => exact absurd (hid.symm.trans hnone) (by simp)
  | @restored a₁ _ hs =>
    simp only [resumeDetached, hfirst, hs, resumeRecord, hp]
    generalize a₁.modifyInstance id (fun p => ({ p with conversation := r.conversation }, [])) = b
    cases p.resume fuel b.world r.start r.resumePoints r.parameters rerun with
    | none => rfl
    | some s => cases hmore : resumeDetached fuel rerun graph count (b.put s) <;> simp [hmore]

/-- The runs that come from a save are resumed. -/
theorem Midway.resumeDetached {rest : List Record} (h : e.Midway graph resumed a)
    (hlog : e.Resumes fuel graph rerun resumed a) (hg : e.graphs.contains graph = true)
    (hsub : ∀ r ∈ rest, r ∈ e.pausedDetached graph) (hrest : a.pausedDetached graph = rest) :
    (resumeDetached fuel rerun graph rest.length a = none → e.Stalls fuel graph rerun) ∧
    ∀ a' ids, resumeDetached fuel rerun graph rest.length a = some (a', ids) → ∃ resumed',
      resumed'.map (·.id) = resumed.map (·.id) ++ ids ∧
      resumed'.map (·.record) = resumed.map (·.record) ++ rest ∧ e.Midway graph resumed' a' ∧
      e.Resumes fuel graph rerun resumed' a' ∧ a'.pausedDetached graph = [] := by
  induction rest generalizing resumed a with
  | nil =>
    refine ⟨fun hnone => by simp [Engine.resumeDetached] at hnone, fun a' ids hr => ?_⟩
    obtain ⟨rfl, rfl⟩ := Prod.mk.inj (Option.some.inj hr)
    exact ⟨resumed, (List.append_nil _).symm, (List.append_nil _).symm, h, hlog, hrest⟩
  | cons r rest ih =>
    have hr := hsub r List.mem_cons_self
    obtain ⟨-, hnone, -, hpaused⟩ := mem_pausedDetached.mp hr
    obtain ⟨b, id, p, hready, hp, hmidway, htakes, hfirst, hregistry⟩ := h.readies hg hnone
    rw [List.length_cons, resumeDetached_succ hrest hnone hready hp]
    cases hs : p.resume fuel b.world r.start r.resumePoints r.parameters rerun with
    | none =>
      exact ⟨fun _ => ⟨resumed, a, r, List.mem_append_right _ hr, id, b, p, hlog, hready, hp, hs⟩,
        fun a' ids hnone => by simp at hnone⟩
    | some s =>
      have hnext := hmidway.act htakes hp rfl hpaused (fun _ => hfirst) hs
      have hlog' : e.Resumes fuel graph rerun
          (resumed ++ [⟨r, id, decide (p.phase = .running)⟩]) (b.put s) :=
        .next hlog hready hp rfl hs
      -- The record is gone, and the others are there.
      have hrest' : (b.put s).pausedDetached graph = rest := by
        have hdetached := Playback.detached_of_stages (Playback.stages_resume hs)
        change s.2.registry.records.filter _ = _
        rw [filter_isDetachedPaused, hdetached, ← filter_isDetachedPaused, hregistry,
          filter_dropDetachedPaused]
        exact congrArg List.tail hrest
      obtain ⟨hstalls, hends⟩ :=
        ih hnext hlog' (fun q hq => hsub q (List.mem_cons_of_mem _ hq)) hrest'
      rw [Option.bind_some]
      refine ⟨fun hnone => hstalls (Option.map_eq_none_iff.mp hnone), fun a' ids hmore => ?_⟩
      obtain ⟨⟨c, more⟩, hc, heq⟩ := Option.map_eq_some_iff.mp hmore
      obtain ⟨rfl, rfl⟩ := Prod.mk.inj heq
      obtain ⟨resumed', hids, hrecords, hends'⟩ := hends c more hc
      exact ⟨resumed', by simp [hids], by simp [hrecords], hends'⟩

theorem resumePausedNow_eq (hg : e.graphs.contains graph = true) :
    e.resumePausedNow fuel graph rerun =
      (e.resumeAttached fuel rerun (e.pausedAttached graph)).bind fun s =>
        (resumeDetached fuel rerun graph (s.1.pausedDetached graph).length s.1).map fun t =>
          (t.1, .ok (s.2 ++ t.2)) := by
  have hattached : e.resumeAttached fuel rerun
      (e.world.registry.records.filter fun r => r.graph = graph && r.isPaused) =
        e.resumeAttached fuel rerun (e.pausedAttached graph) := by
    rw [resumeAttached_filter, List.filter_filter]
    rfl
  rw [resumePausedNow_of_contains hg, hattached]
  rfl

/-- The paused runs of a graph are resumed, those first that belong to instances. -/
theorem Handled.resumePausedNow (h : e.Handled) (hg : e.graphs.contains graph = true)
    (fuel : Nat) (rerun : Bool) :
    (e.resumePausedNow fuel graph rerun = none → e.Stalls fuel graph rerun) ∧
    ∀ a answer, e.resumePausedNow fuel graph rerun = some (a, answer) → ∃ resumed,
      answer = .ok (resumed.map (·.id)) ∧
      resumed.map (·.record) = e.pausedAttached graph ++ e.pausedDetached graph ∧
      e.Midway graph resumed a ∧ e.Resumes fuel graph rerun resumed a ∧
      a.pausedDetached graph = [] := by
  have hstart : e.Resumes fuel graph rerun [] e := .none
  obtain ⟨hstalls, hends⟩ :=
    (h.midway graph).resumeAttached h.linked hstart (List.nil_append _) rfl
  rw [resumePausedNow_eq hg]
  cases hfirst : e.resumeAttached fuel rerun (e.pausedAttached graph) with
  | none => exact ⟨fun _ => hstalls hfirst, fun a answer hnone => by simp at hnone⟩
  | some s =>
    obtain ⟨resumed, hids, hrecords, hmidway, hlog, hdetached⟩ := hends s.1 s.2 hfirst
    have hsame : s.1.pausedDetached graph = e.pausedDetached graph := by
      unfold pausedDetached
      rw [filter_isDetachedPaused, filter_isDetachedPaused, hdetached]
    obtain ⟨hstalls', hends'⟩ :=
      hmidway.resumeDetached hlog hg (fun r hr => hsame ▸ hr) rfl
    rw [Option.bind_some]
    refine ⟨fun hnone => hstalls' (Option.map_eq_none_iff.mp hnone), fun a answer hr => ?_⟩
    obtain ⟨t, ht, heq⟩ := Option.map_eq_some_iff.mp hr
    obtain ⟨rfl, rfl⟩ := Prod.mk.inj heq
    obtain ⟨resumed', hids', hrecords', hmidway', hlog', hnone⟩ := hends' t.1 t.2 ht
    refine ⟨resumed', ?_, ?_, hmidway', hlog', hnone⟩
    · rw [hids', hids]
      rfl
    · rw [hrecords', hrecords, hsame]

/-! ### What becomes of the runs -/

omit [Behaviour β] in
/-- Once all have been resumed, clearing up leaves what becomes of them. -/
theorem Midway.revives (h : e.Midway graph resumed a)
    (hall : resumed.map (·.record) = e.pausedAttached graph ++ e.pausedDetached graph)
    (hnone : a.pausedDetached graph = []) : e.Revives a.collect graph resumed where
  all := hall
  fits := h.fits
  shared hsingle x hx hxnone y hy hynone :=
    Option.some.inj ((h.first x hx hxnone hsingle).symm.trans (h.first y hy hynone hsingle))
  heard id := by
    obtain ⟨kinds, hevents, hresumed, -⟩ := h.heard id
    have hcollected : a.collect.world.eventsOf id = e.world.eventsOf id ++ kinds := by
      rw [world_collect]
      exact hevents
    rw [World.news_of_eventsOf_eq_append hcollected, hresumed]
  killed id := by
    obtain ⟨kinds, hevents, -, hkilled⟩ := h.heard id
    have hcollected : a.collect.world.eventsOf id = e.world.eventsOf id ++ kinds := by
      rw [world_collect]
      exact hevents
    rw [World.news_of_eventsOf_eq_append hcollected, hkilled]
  left r hr hgraph := by
    rw [world_collect] at hr
    have hmem : r ∈ a.world.registry.records := List.mem_of_mem_filter hr
    by_contra hnot
    have hpaused : r.isPaused = true := by simpa using hnot
    cases hid : r.playback with
    | none =>
      have hleft := mem_pausedDetached.mpr ⟨hmem, hid, hgraph, hpaused⟩
      rw [hnone] at hleft
      exact absurd hleft List.not_mem_nil
    | some id =>
      have hrecord := (Registry.record?_eq_some_iff h.linked.tables.single).mpr ⟨hmem, hid⟩
      by_cases hdone : ∃ x ∈ resumed, x.id = id
      · obtain ⟨x, hx, rfl⟩ := hdone
        have hrunning := h.running x hx r hrecord
        rw [Record.running_of_isPaused hpaused] at hrunning
        exact absurd hrunning Bool.false_ne_true
      · -- A record of an instance that has been left alone was there before.
        have hwaits := h.waits id fun x hx hxid => hdone ⟨x, hx, hxid⟩
        obtain ⟨hbefore, -⟩ := Registry.mem_records_of_record? (hwaits.symm.trans hrecord)
        have hattached := mem_pausedAttached.mpr
          ⟨hbefore, Option.isSome_iff_exists.mpr ⟨id, hid⟩, hgraph, hpaused⟩
        have hrecords : r ∈ resumed.map (·.record) := by
          rw [hall]
          exact List.mem_append_left _ hattached
        obtain ⟨x, hx, rfl⟩ := List.mem_map.mp hrecords
        exact hdone ⟨x, hx, h.fits.id_eq hx hid⟩

omit [Behaviour β] in
theorem Fits.singleton (h : e.Fits graph [x]) : e.TakesOn graph [] x := by
  generalize hl : [x] = l at h
  cases h with
  | nil => simp at hl
  | @concat before y _ hy =>
    have hbefore : before = [] ∧ y = x := by
      cases before with
      | nil => exact ⟨rfl, (List.cons.inj hl).1.symm⟩
      | cons _ _ => simp at hl
    obtain ⟨rfl, rfl⟩ := hbefore
    exact hy

omit [Behaviour β] in
/-- Runs that belong to instances, and runs of a graph that may have several, keep apart. -/
theorem Fits.apart (h : e.Fits graph resumed)
    (hroom : ∀ x ∈ resumed, e.IsSingle graph → x.record.playback ≠ none) :
    (resumed.map (·.id)).Nodup ∧ ∀ x ∈ resumed, x.ousts = false := by
  induction h with
  | nil => exact ⟨List.nodup_nil, fun _ hx => absurd hx List.not_mem_nil⟩
  | @concat before y _ hy ih =>
    obtain ⟨hnodup, hkind⟩ := ih fun x hx => hroom x (List.mem_append_left _ hx)
    have hyroom := hroom y (List.mem_append_right _ List.mem_cons_self)
    refine ⟨?_, fun x hx => ?_⟩
    · rw [List.map_append, List.nodup_append]
      refine ⟨hnodup, List.nodup_singleton _, fun id hid j hj => ?_⟩
      obtain ⟨x, hx, rfl⟩ := List.mem_map.mp hid
      rw [List.mem_singleton.mp hj]
      intro hsame
      obtain ⟨hsingle, hnone⟩ := hy.apart x hx hsame
      exact hyroom hsingle hnone
    · rcases List.mem_append.mp hx with hx | hx
      · exact hkind x hx
      · obtain rfl := List.mem_singleton.mp hx
        by_contra hforced
        obtain ⟨hsingle, hnone, -⟩ := hy.ousts (by simpa using hforced)
        exact hyroom hsingle hnone

omit [Behaviour β] in
/-- Where there is room for all runs, each has an instance to itself and none is killed. -/
theorem Revives.of_hasRoom (h : e.Revives e' graph resumed) (he : e.Linked)
    (hroom : e.HasRoom graph) :
    (resumed.map (·.id)).Nodup ∧ ∀ id, Event.Kind.ended true ∉ e.world.news e'.world id := by
  have hboth : (resumed.map (·.id)).Nodup ∧ ∀ x ∈ resumed, x.ousts = false := by
    by_cases hsingle : e.IsSingle graph
    · rcases hroom hsingle with hnone | ⟨hone, hempty⟩
      · refine h.fits.apart fun x hx _ hxnone => ?_
        have hrecord : x.record ∈ resumed.map (·.record) := List.mem_map_of_mem hx
        rw [h.all, hnone, List.append_nil] at hrecord
        have hsome := (mem_pausedAttached.mp hrecord).2.1
        simp [hxnone] at hsome
      · -- Without an instance none of the runs belongs to one.
        have hattached : e.pausedAttached graph = [] := by
          refine List.eq_nil_iff_forall_not_mem.mpr fun r hr => ?_
          obtain ⟨hmem, hsome, hgraph, -⟩ := mem_pausedAttached.mp hr
          obtain ⟨id, hid⟩ := Option.isSome_iff_exists.mp hsome
          obtain ⟨p, hp, rfl⟩ := he.tables.named id (Registry.mem_attached.mpr ⟨r, hmem, hid⟩)
          have hrecord := (Registry.record?_eq_some_iff he.tables.single).mpr ⟨hmem, hid⟩
          exact hempty p hp (((he.linked p hp).graph r hrecord).symm.trans hgraph)
        have hlength : resumed.length = 1 := by
          rw [← hone, ← List.length_map, h.all, hattached, List.nil_append]
        obtain ⟨x, rfl⟩ := List.length_eq_one_iff.mp hlength
        refine ⟨List.nodup_singleton _, fun y hy => ?_⟩
        obtain rfl := List.mem_singleton.mp hy
        by_contra hforced
        obtain ⟨-, -, ⟨p, hp, -, hgraph⟩ | ⟨z, hz, -⟩⟩ :=
          h.fits.singleton.ousts (by simpa using hforced)
        · exact hempty p hp hgraph
        · exact absurd hz List.not_mem_nil
    · exact h.fits.apart fun x hx hsingle' => absurd hsingle' hsingle
  refine ⟨hboth.1, fun id => ?_⟩
  rw [← List.count_eq_zero, h.killed id, List.countP_eq_zero]
  intro x hx
  simp [hboth.2 x hx]

/-- Whatever a host has done, every paused run of a graph that is known is resumed once when all of
them are, as long as no commands are raised: the answer has as many instances as there were paused
runs, and observers hear of each that it is resumed. Those that belong to instances go on there, and
each that comes from a save on a new instance, or on the only one of its graph, which they have to
share. There a run is killed if it still goes on when the next one is resumed, and nowhere else. So
every run has an instance to itself, and none is killed, as long as there is room for all. -/
theorem resumePaused_revives (h : e.Handled) (hg : e.graphs.contains graph = true)
    (hquiet : ∀ a ids, e.resumePausedNow fuel graph rerun = some (a, .ok ids) →
      a.world.commands = []) :
    (e.resumePaused fuel graph rerun = none → e.Stalls fuel graph rerun) ∧
    ∀ e' answer, e.resumePaused fuel graph rerun = some (e', answer) → ∃ resumed a,
      answer = .ok (resumed.map (·.id)) ∧ e.Resumes fuel graph rerun resumed a ∧
      e' = a.collect ∧ e.Revives e' graph resumed ∧
      (e.HasRoom graph → (resumed.map (·.id)).Nodup ∧
        ∀ id, Event.Kind.ended true ∉ e.world.news e'.world id) := by
  obtain ⟨hstalls, hends⟩ := h.resumePausedNow hg fuel rerun
  unfold resumePaused
  cases hnow : e.resumePausedNow fuel graph rerun with
  | none => exact ⟨fun _ => hstalls hnow, fun e' answer hnone => by simp at hnone⟩
  | some s =>
    obtain ⟨resumed, hanswer, hall, hmidway, hlog, hnone⟩ := hends s.1 s.2 hnow
    obtain ⟨a, answer⟩ := s
    obtain rfl : answer = _ := hanswer
    have hconclude : a.conclude fuel = some a.collect := conclude_of_quiet (hquiet a _ hnow)
    simp only [Option.bind_eq_bind, Option.bind_some, hconclude]
    refine ⟨fun hnone => by simp at hnone, fun e' answer hr => ?_⟩
    obtain ⟨rfl, rfl⟩ := Prod.mk.inj (Option.some.inj hr)
    have hrevives := hmidway.revives hall hnone
    exact ⟨resumed, a, rfl, hlog, rfl, hrevives, hrevives.of_hasRoom h.linked⟩

/-- Two paused runs of a circle have been restored from a save. -/
def pausedCircles : Engine Builtin :=
  ((ofKinds {} [echo]).register circle).load "circle:1:1:0:0::|circle:1:1:0:0::"

theorem reachable_pausedCircles : Reachable (fun _ => True) pausedCircles := by
  have hload : ((ofKinds {} [echo]).register circle).perform 0
      (.load "circle:1:1:0:0::|circle:1:1:0:0::") = some pausedCircles := rfl
  exact ((Reachable.start {} [echo]).register circle trivial).perform trivial hload

theorem contains_pausedCircles : pausedCircles.graphs.contains "circle" = true := by
  decide

theorem quiet_pausedCircles : ∀ a ids,
    pausedCircles.resumePausedNow 9 "circle" false = some (a, .ok ids) → a.world.commands = [] := by
  intro a ids hr
  have hnone : (pausedCircles.resumePausedNow 9 "circle" false).map
      (fun s => s.1.world.commands.length) = some 0 := by
    decide +kernel
  rw [hr] at hnone
  exact List.length_eq_zero_iff.mp (Option.some.inj hnone)

theorem resumePaused_pausedCircles : ∃ e', pausedCircles.resumePaused 9 "circle" false =
    some (e', .ok [0, 0]) ∧
    pausedCircles.world.news e'.world 0 = [.resumed, .ended true, .resumed] := by
  have hruns : (pausedCircles.resumePaused 9 "circle" false).map
      (fun s => (s.2.toOption, pausedCircles.world.news s.1.world 0)) =
        some (some [0, 0], [.resumed, .ended true, .resumed]) := by
    decide +kernel
  obtain ⟨⟨e', answer⟩, hr, heq⟩ := Option.map_eq_some_iff.mp hruns
  obtain ⟨hids, hnews⟩ := Prod.mk.inj heq
  cases answer with
  | error _ => simp [Except.toOption] at hids
  | ok ids =>
    obtain rfl := Option.some.inj hids
    exact ⟨e', hr, hnews⟩

/-- Both runs of the circle go on on one instance, and the first is killed for the second. -/
theorem resumePaused_revives_circles : ∃ e' resumed,
    pausedCircles.resumePaused 9 "circle" false = some (e', .ok [0, 0]) ∧
    resumed.map (·.id) = [0, 0] ∧ pausedCircles.Revives e' "circle" resumed ∧
    (resumed.countP fun x => x.id = 0 && x.ousts) = 1 := by
  obtain ⟨e', hr, hnews⟩ := resumePaused_pausedCircles
  obtain ⟨-, hends⟩ := resumePaused_revives reachable_pausedCircles.handled
    contains_pausedCircles quiet_pausedCircles
  obtain ⟨resumed, a, hanswer, -, -, hrevives, -⟩ := hends e' _ hr
  refine ⟨e', resumed, hr, (Except.ok.inj hanswer).symm, hrevives, ?_⟩
  rw [← hrevives.killed 0, hnews]
  rfl

/-- A run may be killed when all paused runs of a graph are resumed, and two of them may have to
share an instance, though nothing raises a command. -/
theorem resumePaused_kills : Reachable (fun _ => True) pausedCircles ∧
    pausedCircles.graphs.contains "circle" = true ∧
    (∀ a ids, pausedCircles.resumePausedNow 9 "circle" false = some (a, .ok ids) →
      a.world.commands = []) ∧
    ∃ e' ids, pausedCircles.resumePaused 9 "circle" false = some (e', .ok ids) ∧ ¬ ids.Nodup ∧
      .ended true ∈ pausedCircles.world.news e'.world 0 := by
  obtain ⟨e', hr, hnews⟩ := resumePaused_pausedCircles
  refine ⟨reachable_pausedCircles, contains_pausedCircles, quiet_pausedCircles, e', [0, 0], hr, ?_,
    ?_⟩
  · decide
  · simp [hnews]

end Engine

end Cutscene
