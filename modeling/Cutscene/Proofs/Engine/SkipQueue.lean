import Cutscene.Proofs.Engine.Faithful
import Cutscene.Proofs.Engine.Saving
import Cutscene.Proofs.Engine.SkipAll

/-!
# What becomes of the skip queue

`Engine.skipAll` takes up the requests of the queue one after the other and skips an instance for
each. `Engine.Progress` is what is true in between: which requests have been settled and on which
instances, which records are left, and how many skips observers have heard of. Each request has an
instance, which has been there all along or is made for it (`Progress.target`), to skip that makes
progress (`Progress.act`), and `skipAll_settles` reads off what the whole call comes to. Requests
that come from a save may share the only instance of their graph (`Engine.Apart`), which is then
skipped for each of them. What comes from a save keeps its record if it can be resumed, although its
run is over (`Settles.left`): only an instance takes its record with it when it ends.
-/

namespace Cutscene

variable {β : Type}

/-- What cannot be dropped cannot be dropped out of the queue either, unless the queue was all that
kept it. -/
theorem Record.isNecessary_unqueued {r : Record} (h : r.isNecessary = true)
    (hqueued : r.queued = true → r.resumePoints ≠ []) :
    ({ r with queued := false } : Record).isNecessary = true := by
  cases hq : r.queued with
  | false => simpa [isNecessary, hq] using h
  | true => simp [isNecessary, hqueued hq]

/-- No record runs that comes from a save. -/
def Registry.IsAtRest (reg : Registry) : Prop := ∀ r ∈ reg.detached, r.running = false

theorem Registry.IsAtRest.trim {reg reg' : Registry} (h : reg.IsAtRest) (ht : reg.Trim reg') :
    reg'.IsAtRest := by
  intro r hr
  obtain ⟨hmem, hnone⟩ := List.mem_filter.mp hr
  obtain ⟨q, hq, queued, rfl⟩ := ht.exists_mem hmem
  exact h q (List.mem_filter.mpr ⟨hq, hnone⟩)

theorem Registry.IsAnew.isAtRest {reg : Registry} (h : reg.IsAnew) : reg.IsAtRest := by
  intro r hr
  rcases h with rfl | ⟨data, rfl⟩
  · exact absurd hr List.not_mem_nil
  · exact (settled_of_mem_load (List.mem_of_mem_filter hr)).running

/-- A request that has been settled, and the instance that has been skipped for it with the number
of its nodes. -/
structure Settlement where
  request : SkipRequest
  id : Nat
  size : Nat

/-- There was a node to start from, so observers have heard of the skip. -/
def Settlement.isHeard (x : Settlement) : Bool := x.request.start < x.size

namespace Engine

/-- Two requests are settled on different instances, or on the only one that their graph has, and
then one of them at least comes from a save. -/
def Apart (e : Engine β) (x y : Settlement) : Prop :=
  x.id = y.id → x.request.graph = y.request.graph ∧ e.IsSingle x.request.graph ∧
    (x.request.playback = none ∨ y.request.playback = none)

/-- An instance with so many nodes was there, or has been made of the graph as it is registered. -/
def Houses (e : Engine β) (graph : String) (id size : Nat) : Prop :=
  (∃ p ∈ e.instances, p.id = id ∧ p.graph = graph ∧ p.nodes.length = size) ∨
    e.nextId ≤ id ∧ ∃ edition, e.graphs.get? graph = some edition ∧
      edition.graph.nodes.length = size

/-- There is enough fuel for the skips of all instances that are there or may be made. -/
def CanSkip (e : Engine β) (fuel : Nat) : Prop := ∀ graph id size, e.Houses graph id size →
  size * max e.world.config.hopFactor 1 < fuel ∧
    size * max e.world.config.hopFactor 1 < UInt64.size

/-- A request may be settled on the instance. -/
structure Suits (e : Engine β) (x : Settlement) : Prop where
  attached : ∀ id, x.request.playback = some id → x.id = id
  housed : e.Houses x.request.graph x.id x.size
  /-- What comes from a save gets the only instance of its graph, or a new one. -/
  restored : x.request.playback = none → e.IsSingle x.request.graph ∨ e.nextId ≤ x.id

/-- All requests are settled on instances that they may have. -/
structure Allotted (e : Engine β) (settled : List Settlement) : Prop where
  suits : ∀ x ∈ settled, e.Suits x
  apart : settled.Pairwise e.Apart

theorem Allotted.concat {e : Engine β} {settled : List Settlement} (h : e.Allotted settled)
    {y : Settlement} (hy : e.Suits y) (hapart : ∀ x ∈ settled, e.Apart x y) :
    e.Allotted (settled ++ [y]) where
  suits x hx := by
    rcases List.mem_append.mp hx with hx | hx
    · exact h.suits x hx
    · rw [List.mem_singleton.mp hx]
      exact hy
  apart := by
    refine List.pairwise_append.mpr ⟨h.apart, List.pairwise_singleton _ _, fun x hx z hz => ?_⟩
    rw [List.mem_singleton.mp hz]
    exact hapart x hx

/-- What becomes of the skip queue when everything is skipped. -/
structure Settles (e e' : Engine β) (settled : List Settlement) : Prop
    extends e.Allotted settled where
  all : settled.map (·.request) = e.world.registry.takeQueue.1
  /-- The runs are over. -/
  ended : ∀ x ∈ settled, e'.world.registry.record? x.id = none ∧
    ∀ p ∈ e'.instances, p.id = x.id → p.graph = x.request.graph ∧ p.phase = .finished
  /-- Observers hear of one skip for each request, if there is a node to start from. -/
  skips : ∀ id, (e.world.news e'.world id).countP (·.isSkip) =
    settled.countP fun x => x.id = id && x.isHeard
  /-- The records that are left are out of the queue, and no instance of theirs has been skipped.
  What was in the queue has come from a save then, and could have been resumed. -/
  left : ∀ r, r ∈ e'.world.registry.records ↔ ∃ q ∈ e.world.registry.records,
    r = { q with queued := false } ∧ (∀ x ∈ settled, q.playback ≠ some x.id) ∧
      (q.queued = true → q.playback = none ∧ q.resumePoints ≠ [])

/-- An engine in the middle of skipping everything, and the requests that have been settled since it
was `e`. -/
structure Progress (e : Engine β) (settled : List Settlement) (a : Engine β) : Prop
    extends e.Allotted settled where
  linked : a.Linked
  filed : a.Filed
  faithful : a.Faithful
  graphs : a.graphs = e.graphs
  config : a.world.config = e.world.config
  nextId : e.nextId ≤ a.nextId
  records : ∀ r, r ∈ a.world.registry.records ↔
    r ∈ e.world.registry.takeQueue.2.records ∧ ∀ x ∈ settled, r.playback ≠ some x.id
  stays : ∀ p ∈ e.instances, ∃ q ∈ a.instances, q.id = p.id ∧ q.graph = p.graph
  sources : ∀ p ∈ a.instances, e.Houses p.graph p.id p.nodes.length
  ended : ∀ x ∈ settled, ∃ p ∈ a.instances,
    p.id = x.id ∧ p.graph = x.request.graph ∧ p.phase = .finished
  heard : ∀ id, ∃ kinds, a.world.eventsOf id = e.world.eventsOf id ++ kinds ∧
    kinds.countP (·.isSkip) = settled.countP fun x => x.id = id && x.isHeard

/-! ### Whose turn it is -/

variable {e a a' : Engine β} {settled : List Settlement} {request : SkipRequest}
  {rest : List SkipRequest}

/-- The instance of a request that has one is there. -/
theorem Progress.instance?_attached (h : e.Progress settled a) (he : e.Linked)
    (hrequest : request ∈ e.world.registry.takeQueue.1) {id : Nat}
    (hid : request.playback = some id) :
    id < e.nextId ∧ ∃ p, a.instance? id = some p ∧ p.graph = request.graph := by
  obtain ⟨record, hrecord, -, rfl⟩ := Registry.mem_takeQueue hrequest
  obtain ⟨p, hp, rfl⟩ := he.tables.named id (Registry.mem_attached.mpr ⟨record, hrecord, hid⟩)
  have hfound := (Registry.record?_eq_some_iff he.tables.single).mpr ⟨hrecord, hid⟩
  obtain ⟨q, hq, hqid, hqgraph⟩ := h.stays p hp
  refine ⟨he.tables.fresh p hp, q, ?_, ?_⟩
  · rw [← hqid]
    exact h.linked.tables.instance?_eq_some hq
  · rw [hqgraph]
    exact ((he.linked p hp).graph record hfound).symm

/-- A settled request was for the graph of its instance. -/
theorem Progress.graph_eq (h : e.Progress settled a) {x : Settlement} (hx : x ∈ settled)
    {p : Playback β} (hp : a.instance? x.id = some p) : x.request.graph = p.graph := by
  obtain ⟨q, hq, hqid, hgraph, -⟩ := h.ended x hx
  have hfound := h.linked.tables.instance?_eq_some hq
  rw [hqid, hp] at hfound
  obtain rfl := Option.some.inj hfound
  exact hgraph.symm

theorem Progress.houses (h : e.Progress settled a) {id : Nat} {p : Playback β}
    (hp : a.instance? id = some p) (hgraph : p.graph = request.graph) :
    e.Houses request.graph id p.nodes.length := by
  rw [← hgraph, ← instance?_id hp]
  exact h.sources p (mem_instances_of_instance? hp)

/-- The next request may have the instance that it is for. -/
theorem Progress.allotted_attached (h : e.Progress settled a) (he : e.Linked)
    (hqueue : e.world.registry.takeQueue.1 = settled.map (·.request) ++ request :: rest)
    {id : Nat} (hid : request.playback = some id) {p : Playback β} (hp : a.instance? id = some p) :
    e.Allotted (settled ++ [⟨request, id, p.nodes.length⟩]) := by
  have hrequest : request ∈ e.world.registry.takeQueue.1 := by simp [hqueue]
  obtain ⟨hlt, q, hq, hgraph⟩ := h.instance?_attached he hrequest hid
  obtain rfl := Option.some.inj (hp.symm.trans hq)
  have hsuits : e.Suits ⟨request, id, p.nodes.length⟩ := by
    refine ⟨fun j hj => Option.some.inj (hid.symm.trans hj), h.houses hp hgraph, fun hnone => ?_⟩
    rw [hid] at hnone
    simp at hnone
  refine h.toAllotted.concat hsuits ?_
  intro x hx hxid
  have hxgraph : x.request.graph = request.graph := (h.graph_eq hx (hxid ▸ hp)).trans hgraph
  -- No other request is for the same instance.
  have hxnone : x.request.playback = none := by
    cases hxplayback : x.request.playback with
    | none => rfl
    | some j =>
      have hj : j = id := ((h.suits x hx).attached j hxplayback).symm.trans hxid
      have hpairwise := Registry.pairwise_takeQueue he.tables.single
      rw [hqueue, List.pairwise_append] at hpairwise
      have hother := hpairwise.2.2 x.request (List.mem_map_of_mem hx) request List.mem_cons_self
      exact absurd (hj ▸ hid) (hother j hxplayback)
  refine ⟨hxgraph, ?_, Or.inl hxnone⟩
  rcases (h.suits x hx).restored hxnone with hsingle | hfresh
  · exact hsingle
  · -- The instance was there, so it has not been made for the other request.
    have hxlt : x.id < e.nextId := hxid ▸ hlt
    omega

/-! ### From request to request -/

variable [Behaviour β] {fuel : Nat}

theorem isAtRest_touch (h : e.world.registry.IsAtRest) (ht : Touch e a) :
    a.world.registry.IsAtRest := by
  cases ht with
  | step hs =>
    cases hs with
    | @act p fuel op r hp hop hr =>
      have hdetached := Playback.detached_of_stages (Playback.stages_perform hop hr)
      unfold Registry.IsAtRest at h ⊢
      rwa [← hdetached] at h
    | told | forgot | allow | register | sweep => exact h
    | around hw =>
      rw [hw.registry]
      exact h
    | trim ht => exact h.trim ht
    | spawn hs =>
      rw [registry_spawn hs]
      exact h
    | park hp hrun =>
      rw [(e.park_instances _).2]
      exact h
    | reload hnone hr => exact hr.isAtRest
  | @meddle p hp r hr =>
    cases hr with
    | clear => exact h
    | reset unqueue =>
      have hdetached : (e.world.registry.modify p.id (·.reset unqueue)).detached =
          e.world.registry.detached := Registry.detached_modify fun _ => rfl
      unfold Registry.IsAtRest at h ⊢
      rwa [← hdetached] at h

/-- Whatever a host does, no record runs that comes from a save. -/
theorem Handled.isAtRest (h : e.Handled) : e.world.registry.IsAtRest :=
  h.invariant (fun _ _ _ hr => absurd hr List.not_mem_nil) fun _ _ _ he ht => isAtRest_touch he ht

theorem Handled.progress (h : e.Handled) :
    e.Progress [] (e.withRegistry e.world.registry.takeQueue.2) where
  suits _ hx := absurd hx List.not_mem_nil
  apart := .nil
  linked := h.linked.steps (steps_takeQueue e)
  filed := h.filed.steps (steps_takeQueue e)
  faithful := ⟨h.faithful.instances, h.faithful.shelved⟩
  graphs := rfl
  config := rfl
  nextId := Nat.le_refl _
  records r := by simp [withRegistry]
  stays p hp := ⟨p, hp, rfl, rfl⟩
  sources p hp := Or.inl ⟨p, hp, rfl, rfl, rfl⟩
  ended _ hx := absurd hx List.not_mem_nil
  heard id := ⟨[], (List.append_nil _).symm, rfl⟩

/-- To give a graph an instance settles nothing and spoils nothing. -/
theorem Progress.spawn (h : e.Progress settled a) {graph : String} {id : Nat}
    (hs : a.spawn graph = .ok (a', id)) : e.Progress settled a' := by
  have hlinked := h.linked.step (.spawn hs)
  have hfiled := h.filed.step (.spawn hs)
  have hfaithful := h.faithful.spawn h.filed hs
  rcases spawn_cases hs with ⟨rfl, -⟩ | ⟨edition, nodes, notices, parked, hg, -, -, -, heq⟩
  · exact h
  · obtain rfl : a' = _ := congrArg Prod.fst heq
    have hnoticed := a.world.quiet_noticeAll notices
    refine { h with
      linked := hlinked
      filed := hfiled
      faithful := hfaithful
      config := hnoticed.config.trans h.config
      nextId := Nat.le_succ_of_le h.nextId
      records := fun r => ?_
      stays := fun p hp => ?_
      sources := fun p hp => ?_
      ended := fun x hx => ?_
      heard := fun id => ?_ }
    · rw [← h.records r, registry_spawn hs]
    · obtain ⟨q, hq, hsame⟩ := h.stays p hp
      exact ⟨q, List.mem_append_left _ hq, hsame⟩
    · rcases List.mem_append.mp hp with hold | hnew
      · exact h.sources p hold
      · -- The nodes of the new instance are as many as its graph says, from the shelf or not.
        have hdescribes := hfaithful.instances p hp edition
        obtain rfl := List.mem_singleton.mp hnew
        have hget : e.graphs.get? edition.graph.id = some edition := by
          rw [h.filed.titled graph edition hg, ← h.graphs]
          exact hg
        have hsize := (hdescribes (h.graphs ▸ hget) rfl).length_eq
        exact Or.inr ⟨h.nextId, edition, hget, hsize.symm⟩
    · obtain ⟨p, hp, hended⟩ := h.ended x hx
      exact ⟨p, List.mem_append_left _ hp, hended⟩
    · obtain ⟨kinds, hevents, hskips⟩ := h.heard id
      exact ⟨kinds, (hnoticed.events id).trans hevents, hskips⟩

/-- The next request may have the instance that its graph gets. -/
theorem Progress.allotted_restored (h : e.Progress settled a) {id : Nat}
    (hnone : request.playback = none) (hs : a.spawn request.graph = .ok (a', id)) {p : Playback β}
    (hp : a'.instance? id = some p) :
    p.graph = request.graph ∧ e.Allotted (settled ++ [⟨request, id, p.nodes.length⟩]) := by
  have hattached : ∀ j, request.playback = some j → id = j := by simp [hnone]
  have hspawned := h.spawn hs
  rcases spawn_cases hs with
    ⟨rfl, hsingle, q, hq, hgraph, rfl⟩ | ⟨edition, nodes, notices, parked, hg, -, -, -, heq⟩
  · obtain rfl := Option.some.inj ((h.linked.tables.instance?_eq_some hq).symm.trans hp)
    have hsingle' : e.IsSingle request.graph := by
      unfold IsSingle at hsingle ⊢
      rwa [h.graphs] at hsingle
    have hsuits : e.Suits ⟨request, q.id, q.nodes.length⟩ :=
      ⟨hattached, h.houses hp hgraph, fun _ => Or.inl hsingle'⟩
    refine ⟨hgraph, h.toAllotted.concat hsuits ?_⟩
    intro x hx hxid
    have hxgraph : x.request.graph = request.graph := (h.graph_eq hx (hxid ▸ hp)).trans hgraph
    exact ⟨hxgraph, hxgraph ▸ hsingle', Or.inr hnone⟩
  · obtain ⟨rfl, rfl⟩ := Prod.mk.inj heq
    have hfound := hspawned.linked.tables.instance?_eq_some
      (List.mem_append_right _ List.mem_cons_self)
    obtain rfl := Option.some.inj (hfound.symm.trans hp)
    have hgraph := h.filed.titled _ _ hg
    have hsuits : e.Suits ⟨request, a.nextId, nodes.length⟩ :=
      ⟨hattached, hspawned.houses hp hgraph, fun _ => Or.inr h.nextId⟩
    refine ⟨hgraph, h.toAllotted.concat hsuits ?_⟩
    intro x hx hxid
    -- An instance that is made for the request is none that has been skipped.
    obtain ⟨q, hq, hqid, -⟩ := h.ended x hx
    have hlt := h.linked.tables.fresh q hq
    have hnext : q.id = a.nextId := hqid.trans hxid
    omega

/-- To skip the instance that a request may have settles the request. -/
theorem Progress.act (h : e.Progress settled a) {id : Nat} {p : Playback β}
    (hallotted : e.Allotted (settled ++ [⟨request, id, p.nodes.length⟩]))
    (hp : a.instance? id = some p) (hgraph : p.graph = request.graph)
    {r : Playback β × World β} (hr : (request.brief p).skip fuel a.world request.start = some r) :
    e.Progress (settled ++ [⟨request, id, p.nodes.length⟩]) (a.put r) := by
  have hmem := mem_instances_of_instance? hp
  have hpid := instance?_id hp
  have hstages := Playback.stages_skip hr
  have hid : r.1.id = p.id := hstages.id_eq
  have hrgraph : r.1.graph = p.graph := congrArg Playback.Identity.graph hstages.identity_eq
  have hsize : r.1.nodes.length = p.nodes.length :=
    Playback.length_skip (p := request.brief p) (h.linked.notSkipping p hmem) hr
  have hleaves := Playback.skip_leaves hr
  have hact : Doing a (.act p (.skip request.start)) (a.put r) :=
    .act (instance?_self hp) [] rfl hr
  have hsteps : Steps a (a.put r) := hact.steps rfl
  refine { hallotted with
    linked := h.linked.steps hsteps
    filed := h.filed.steps hsteps
    faithful := h.faithful.doing h.linked h.filed hact
    graphs := h.graphs
    config := hstages.config_eq.trans h.config
    nextId := h.nextId
    records := fun record => ?_
    stays := fun q hq => ?_
    sources := fun q hq => ?_
    ended := fun x hx => ?_
    heard := fun j => ?_ }
  · have hregistry : (a.put r).world.registry = a.world.registry.drop id := by
      rw [← hpid]
      exact hleaves.registry
    rw [hregistry, Registry.mem_drop, h.records, and_assoc]
    simp [or_imp, forall_and]
  · obtain ⟨q', hq', hqid, hqgraph⟩ := h.stays q hq
    rcases h.linked.tables.mem_put hp hid hq' with ⟨rfl, hnew⟩ | ⟨-, hq'⟩
    · exact ⟨r.1, hnew, hid.trans hqid, hrgraph.trans hqgraph⟩
    · exact ⟨q', hq', hqid, hqgraph⟩
  · rcases mem_instances_put hq with rfl | ⟨hq, -⟩
    · rw [hrgraph, hid, hsize]
      exact h.sources p hmem
    · exact h.sources q hq
  · rcases List.mem_append.mp hx with hx | hx
    · obtain ⟨q, hq, hqid, hqgraph, hended⟩ := h.ended x hx
      rcases h.linked.tables.mem_put hp hid hq with ⟨rfl, hnew⟩ | ⟨-, hq⟩
      · exact ⟨r.1, hnew, hid.trans hqid, hrgraph.trans hqgraph, hleaves.finished⟩
      · exact ⟨q, hq, hqid, hqgraph, hended⟩
    · obtain rfl := List.mem_singleton.mp hx
      exact ⟨r.1, mem_put_self hp hid, hid.trans hpid, hrgraph.trans hgraph, hleaves.finished⟩
  · obtain ⟨kinds, hevents, hskips⟩ := h.heard j
    obtain ⟨more, hmore, hone⟩ := Playback.eventsOf_skip hr j
    rw [hevents, List.append_assoc] at hmore
    refine ⟨_, hmore, ?_⟩
    rw [List.countP_append, List.countP_append, hskips, hone]
    simp [Settlement.isHeard, SkipRequest.brief, hpid]

omit [Behaviour β] in
/-- With enough fuel, an instance that is there can be skipped. -/
theorem Progress.lt_of_canSkip (h : e.Progress settled a) (hcan : e.CanSkip fuel) {p : Playback β}
    (hp : p ∈ a.instances) :
    p.nodes.length * max a.world.config.hopFactor 1 < fuel ∧
      p.nodes.length * max a.world.config.hopFactor 1 < UInt64.size := by
  rw [h.config]
  exact hcan _ _ _ (h.sources p hp)

theorem skipRequested_of_spawn (fuel : Nat) {id : Nat} {p : Playback β}
    (hnone : request.playback = none) (hs : a.spawn request.graph = .ok (a', id))
    (hp : a'.instance? id = some p) :
    a.skipRequested fuel request =
      ((request.brief p).skip fuel a'.world request.start).map a'.put := by
  unfold skipRequested
  simp only [hnone, Option.filter_none, hs, hp]
  rfl

/-- The next request is for an instance that it may have. -/
theorem Progress.target (h : e.Progress settled a) (he : e.Linked)
    (hqueue : e.world.registry.takeQueue.1 = settled.map (·.request) ++ request :: rest)
    (hgraph : e.graphs.contains request.graph = true) (fuel : Nat) :
    ∃ a₁ id p, e.Progress settled a₁ ∧ a₁.instance? id = some p ∧ p.graph = request.graph ∧
      e.Allotted (settled ++ [⟨request, id, p.nodes.length⟩]) ∧
      a.skipRequested fuel request =
        ((request.brief p).skip fuel a₁.world request.start).map a₁.put := by
  cases hid : request.playback with
  | some id =>
    have hrequest : request ∈ e.world.registry.takeQueue.1 := by simp [hqueue]
    obtain ⟨-, p, hp, hpgraph⟩ := h.instance?_attached he hrequest hid
    have hallotted := h.allotted_attached he hqueue hid hp
    exact ⟨a, id, p, h, hp, hpgraph, hallotted, skipRequested_of_instance fuel hid hp⟩
  | none =>
    rw [← h.graphs] at hgraph
    obtain ⟨a₁, id, p, hs, hp, -⟩ := exists_spawn hgraph
    obtain ⟨hpgraph, hallotted⟩ := h.allotted_restored hid hs hp
    exact ⟨a₁, id, p, h.spawn hs, hp, hpgraph, hallotted, skipRequested_of_spawn fuel hid hs hp⟩

/-- One request after the other is settled, and none keeps the rest from its turn. -/
theorem Progress.skipRequests (h : e.Progress settled a) (he : e.Linked)
    (hqueue : e.world.registry.takeQueue.1 = settled.map (·.request) ++ rest)
    (hgraphs : ∀ request ∈ rest, e.graphs.contains request.graph = true)
    (hquiet : a.SkipsQuietly fuel rest) :
    (e.CanSkip fuel → ∃ a', a.skipRequests fuel rest = some a') ∧
      ∀ a', a.skipRequests fuel rest = some a' → ∃ settled,
        settled.map (·.request) = e.world.registry.takeQueue.1 ∧ e.Progress settled a' := by
  -- What is left of the queue gets shorter, and what has been settled gets longer.
  induction rest generalizing settled a with
  | nil =>
    refine ⟨fun _ => ⟨a, rfl⟩, fun a' hr => ?_⟩
    obtain rfl := Option.some.inj hr
    exact ⟨settled, by rw [hqueue, List.append_nil], h⟩
  | cons request rest ih =>
    obtain ⟨a₁, id, p, h₁, hp, hpgraph, hallotted, hone⟩ :=
      h.target he hqueue (hgraphs request List.mem_cons_self) fuel
    simp only [Engine.skipRequests]
    cases hskip : (request.brief p).skip fuel a₁.world request.start with
    | none =>
      rw [hone, hskip]
      refine ⟨fun hcan => ?_, fun a' hr => ?_⟩
      · obtain ⟨hfuel, hlimit⟩ := h₁.lt_of_canSkip hcan (mem_instances_of_instance? hp)
        obtain ⟨r, hr⟩ := (request.brief p).exists_skip_of_lt a₁.world request.start hfuel hlimit
        simp [hskip] at hr
      · simp at hr
    | some r =>
      rw [hskip] at hone
      obtain ⟨hcommands, hquiet'⟩ := hquiet _ hone
      have hqueue' : e.world.registry.takeQueue.1 =
          (settled ++ [(⟨request, id, p.nodes.length⟩ : Settlement)]).map (·.request) ++ rest := by
        rw [hqueue, List.map_append, List.append_assoc]
        rfl
      rw [hone, Option.map_some, Option.bind_eq_bind, Option.bind_some,
        flushAll_of_quiet hcommands]
      exact ih (h₁.act hallotted hp hpgraph hskip) hqueue'
        (fun other hother => hgraphs other (List.mem_cons_of_mem _ hother)) hquiet'

/-! ### What is left -/

omit [Behaviour β] in
/-- A record that was in the queue has been settled, and an instance that has been skipped has no
record. -/
theorem Allotted.playback_eq_none (h : e.Allotted settled)
    (hall : settled.map (·.request) = e.world.registry.takeQueue.1) {r : Record}
    (hr : r ∈ e.world.registry.records) (hqueued : r.queued = true)
    (hothers : ∀ x ∈ settled, r.playback ≠ some x.id) : r.playback = none := by
  have hrequest : (⟨r.graph, r.playback, r.start, r.conversation⟩ : SkipRequest) ∈
      settled.map (·.request) := by
    rw [hall]
    exact List.mem_filterMap.mpr ⟨r, hr, by rw [Record.skipRequest?, if_pos hqueued]⟩
  obtain ⟨x, hx, hxrequest⟩ := List.mem_map.mp hrequest
  have hxplayback : x.request.playback = r.playback := congrArg SkipRequest.playback hxrequest
  cases hid : r.playback with
  | none => rfl
  | some id =>
    have hxid := (h.suits x hx).attached id (hxplayback.trans hid)
    exact absurd (hxid ▸ hid) (hothers x hx)

omit [Behaviour β] in
/-- Once all requests have been settled, clearing up leaves what becomes of the skip queue. -/
theorem Progress.settles (h : e.Progress settled a) (htidy : e.world.registry.IsTidy)
    (hrest : e.world.registry.IsAtRest)
    (hall : settled.map (·.request) = e.world.registry.takeQueue.1) :
    e.Settles a.collect settled where
  toAllotted := h.toAllotted
  all := hall
  ended x hx := by
    constructor
    · have hnone : a.world.registry.record? x.id = none := by
        rw [Registry.record?_eq_none_iff, Registry.mem_attached]
        rintro ⟨r, hr, hid⟩
        exact ((h.records r).mp hr).2 x hx hid
      rw [world_collect]
      exact Registry.Trim.purge.record?_eq_none hnone
    · intro p hp hid
      rw [instances_collect] at hp
      have hfound := h.linked.tables.instance?_eq_some (List.mem_of_mem_filter hp)
      obtain ⟨q, hq, hqid, hgraph, hended⟩ := h.ended x hx
      have hfound' := h.linked.tables.instance?_eq_some hq
      rw [hqid, ← hid, hfound] at hfound'
      obtain rfl := Option.some.inj hfound'
      exact ⟨hgraph, hended⟩
  skips id := by
    obtain ⟨kinds, hevents, hskips⟩ := h.heard id
    have hcollected : a.collect.world.eventsOf id = e.world.eventsOf id ++ kinds := by
      rw [world_collect]
      exact hevents
    rw [World.news_of_eventsOf_eq_append hcollected]
    exact hskips
  left r := by
    rw [world_collect]
    constructor
    · intro hr
      obtain ⟨hmem, hnecessary⟩ := List.mem_filter.mp hr
      obtain ⟨hmem, hothers⟩ := (h.records r).mp hmem
      obtain ⟨q, hq, rfl⟩ := List.mem_map.mp (List.mem_of_mem_filter hmem)
      refine ⟨q, hq, rfl, hothers, fun hqueued => ?_⟩
      have hnone := h.toAllotted.playback_eq_none hall hq hqueued hothers
      -- What keeps it is neither that it runs nor that it waits.
      have hrunning : q.running = false := hrest q (List.mem_filter.mpr ⟨hq, by simp [hnone]⟩)
      refine ⟨hnone, ?_⟩
      simpa [Record.isNecessary, hrunning] using hnecessary
    · rintro ⟨q, hq, rfl, hothers, hqueue⟩
      have hnecessary :=
        Record.isNecessary_unqueued (htidy q hq) fun hqueued => (hqueue hqueued).2
      have hmem : { q with queued := false } ∈ e.world.registry.takeQueue.2.records :=
        List.mem_filter.mpr ⟨List.mem_map_of_mem hq, hnecessary⟩
      exact List.mem_filter.mpr ⟨(h.records _).mpr ⟨hmem, hothers⟩, hnecessary⟩

/-- Whatever a host has done, to skip everything comes to an end and settles every request of the
queue once, as long as the graphs are known and no skip raises commands: on the instance of its
record or, if it comes from a save, on the only instance of its graph or a new one. All these runs
are over, and observers have heard of one skip for each of them that had a node to start from. The
only records of theirs that are left come from a save and can still be resumed. -/
theorem skipAll_settles (h : e.Handled)
    (hgraphs : ∀ request ∈ e.world.registry.takeQueue.1,
      e.graphs.contains request.graph = true)
    (hquiet : (e.withRegistry e.world.registry.takeQueue.2).SkipsQuietly fuel
      e.world.registry.takeQueue.1) :
    (e.CanSkip fuel → ∃ e', e.skipAll fuel = some e') ∧
      ∀ e', e.skipAll fuel = some e' → ∃ settled, e.Settles e' settled := by
  obtain ⟨hreturns, hprogress⟩ := h.progress.skipRequests h.linked rfl hgraphs hquiet
  constructor
  · intro hcan
    obtain ⟨a, ha⟩ := hreturns hcan
    exact ⟨a.collect, Option.bind_eq_some_iff.mpr ⟨a, ha, rfl⟩⟩
  · intro e' hr
    obtain ⟨a, ha, rfl⟩ := skipAll_cases hr
    obtain ⟨settled, hall, hsettled⟩ := hprogress a ha
    exact ⟨settled, hsettled.settles h.settled.tidy h.isAtRest hall⟩

/-! ### Two runs of one graph -/

/-- Two runs of a circle have been restored from a save, and both wait in the skip queue. The first
one was paused at its second node. -/
def restoredCircles : Engine Builtin :=
  ((ofKinds {} [echo]).register circle).load "circle:1:1:1:0::|circle::1:1:0::"

theorem reachable_restoredCircles : Reachable (fun _ => True) restoredCircles := by
  have hload : ((ofKinds {} [echo]).register circle).perform 0
      (.load "circle:1:1:1:0::|circle::1:1:0::") = some restoredCircles := rfl
  exact ((Reachable.start {} [echo]).register circle trivial).perform trivial hload

theorem takeQueue_restoredCircles : restoredCircles.world.registry.takeQueue.1 =
    [⟨"circle", none, 1, none⟩, ⟨"circle", none, 1, none⟩] := by
  decide

theorem skipsQuietly_restoredCircles :
    (restoredCircles.withRegistry restoredCircles.world.registry.takeQueue.2).SkipsQuietly 7
      restoredCircles.world.registry.takeQueue.1 := by
  rw [takeQueue_restoredCircles]
  intro a ha
  obtain rfl := Option.some.inj ha
  refine ⟨rfl, fun a' ha' => ?_⟩
  obtain rfl := Option.some.inj ha'
  exact ⟨rfl, trivial⟩

theorem canSkip_restoredCircles : restoredCircles.CanSkip 7 := by
  rintro graph id size (⟨p, hp, -⟩ | ⟨-, edition, hget, rfl⟩)
  · exact absurd hp List.not_mem_nil
  · rw [show restoredCircles.graphs = ((ofKinds {} [echo]).register circle).graphs from
      graphs_load _ _, Engine.register, Table.get?_insert] at hget
    split_ifs at hget
    · obtain rfl := Option.some.inj hget
      exact ⟨by decide, by decide⟩
    · exact absurd hget (by simp [ofKinds, Table.get?])

/-- Both runs are settled, and on the same instance. The first one can be resumed all the same. -/
theorem skipAll_settles_restoredCircles : ∃ e settled, restoredCircles.skipAll 7 = some e ∧
    restoredCircles.Settles e settled ∧ settled.countP (fun x => x.id = 0 && x.isHeard) = 2 ∧
    ∃ r ∈ e.world.registry.records, r.graph = "circle" ∧ r.isPaused = true := by
  have hgraphs : ∀ request ∈ restoredCircles.world.registry.takeQueue.1,
      restoredCircles.graphs.contains request.graph = true := by
    rw [takeQueue_restoredCircles]
    decide
  obtain ⟨hreturns, hsettles⟩ := skipAll_settles reachable_restoredCircles.handled hgraphs
    skipsQuietly_restoredCircles
  obtain ⟨e, hr⟩ := hreturns canSkip_restoredCircles
  obtain ⟨settled, hsettled⟩ := hsettles e hr
  have hskips : (restoredCircles.world.news e.world 0).countP (·.isSkip) = 2 := by
    obtain rfl := Option.some.inj hr
    rfl
  have hleft : ∃ r ∈ restoredCircles.world.registry.records,
      r.graph = "circle" ∧ r.playback = none ∧ r.running = false ∧ r.resumePoints ≠ [] := by
    decide
  obtain ⟨q, hq, hgraph, hnone, hrunning, hpoints⟩ := hleft
  refine ⟨e, settled, hr, hsettled, (hsettled.skips 0).symm.trans hskips, _,
    (hsettled.left _).mpr ⟨q, hq, rfl, by simp [hnone], fun _ => ⟨hnone, hpoints⟩⟩, hgraph, ?_⟩
  simp [Record.isPaused, hrunning, hpoints]

end Engine

end Cutscene
