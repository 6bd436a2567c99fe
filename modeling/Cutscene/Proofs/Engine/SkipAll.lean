import Cutscene.Proofs.Engine.Consistent
import Cutscene.Proofs.Engine.Editions
import Cutscene.Proofs.Playback.Skipped

/-!
# To skip everything is to skip one after the other

`Engine.skipAll` empties the skip queue at the beginning and clears up at the end, while skips of
single instances find their records in the queue and clear up after each. `Engine.Abreast` is how
the two stand to each other in between. Each request keeps it (`Abreast.next`), since a skip does
not see what the registries differ in (`Playback.skip_withRegistry`), and in the end nothing is left
of the difference but the order in which nodes were put on the shelf (`Abreast.looksLike`). What a
request brings with it of its own is the conversation: `skipAll_looksLike` therefore compares with
skips of instances that have been told the conversations of their records.
-/

namespace Cutscene

variable {β : Type}

/-- The playback is over and nobody will ask for it. -/
def Playback.isGone (p : Playback β) : Bool :=
  p.phase = .finished && !p.settings.survivesSceneChange

namespace Engine

/-- Two engines know the same graphs and kinds of nodes and will give out the same ids. -/
structure SameSetup (e e' : Engine β) : Prop where
  kinds : e.kinds = e'.kinds
  graphs : e.graphs = e'.graphs
  disabled : e.disabled = e'.disabled
  nextId : e.nextId = e'.nextId
  nextEdition : e.nextEdition = e'.nextEdition

/-- A host cannot tell two engines apart: the world with its variables, records and its journal of
events and calls is the same, and so are the instances and what is on the shelf for each graph. -/
structure LooksLike (e e' : Engine β) : Prop extends e.SameSetup e' where
  world : e.world = e'.world
  instances : e.instances = e'.instances
  parked : ∀ graph, e.parked.get? graph = e'.parked.get? graph

/-! ### Instances that are gone -/

theorem isDone_of_finished (e : Engine β) {p : Playback β} (h : p.phase = .finished) :
    e.isDone p = p.isGone := by
  unfold isDone Playback.isGone
  simp [h]

theorem isDone_of_isGone (e : Engine β) {p : Playback β} (h : p.isGone = true) :
    e.isDone p = true := by
  have hfinished : p.phase = .finished := by
    unfold Playback.isGone at h
    simpa using (Bool.and_eq_true_iff.mp h).1
  rw [e.isDone_of_finished hfinished]
  exact h

theorem Settled.isGone_eq_false {e : Engine β} (h : e.Settled) {p : Playback β}
    (hp : p ∈ e.instances) : p.isGone = false := by
  by_contra hgone
  have hdone := e.isDone_of_isGone (by simpa using hgone)
  simp [h.swept p hp] at hdone

/-! ### Skips that raise no commands -/

variable [Behaviour β]

/-- None of the skips that are asked for raises a command. -/
def SkipsQuietly (fuel : Nat) : Engine β → List SkipRequest → Prop
  | _, [] => True
  | e, request :: rest => ∀ e', e.skipRequested fuel request = some e' →
    e'.world.commands = [] ∧ SkipsQuietly fuel e' rest

/-- Skips the instance that a request is for by itself. -/
def skipByItself (fuel : Nat) (e : Engine β) (request : SkipRequest) : Option (Engine β) :=
  match request.playback with
  | none => some e
  | some id => (e.skip fuel id).map (·.1)

/-- The same, once the instance has been told the conversation of the request. -/
def skipAsRecorded (fuel : Nat) (e : Engine β) (request : SkipRequest) : Option (Engine β) :=
  match request.playback with
  | none => some e
  | some id =>
    ((e.modifyInstance id fun p => (request.brief p, [])).skip fuel id).map (·.1)

variable {fuel : Nat} {e a b : Engine β} {request : SkipRequest} {requests : List SkipRequest}

theorem skipRequested_of_instance (fuel : Nat) {id : Nat} {p : Playback β}
    (hid : request.playback = some id) (hp : e.instance? id = some p) :
    e.skipRequested fuel request =
      ((request.brief p).skip fuel e.world request.start).map e.put := by
  have htarget : (request.playback.filter fun id => (e.instance? id).isSome) = some id := by
    rw [hid, Option.filter_some_pos (by simp [hp])]
  unfold skipRequested
  simp only [htarget, hp]
  rfl

theorem skip_of_instance {id : Nat} {p : Playback β} (hp : e.instance? id = some p) :
    (e.skip fuel id).map (·.1) =
      (p.skip fuel e.world p.start).bind fun r => (e.put r).conclude fuel := by
  unfold Engine.skip onInstance
  simp only [hp]
  cases p.skip fuel e.world p.start with
  | none => rfl
  | some r => cases hc : (e.put r).conclude fuel <;> simp [hc]

theorem skipAsRecorded_of_instance (fuel : Nat) {id : Nat} {p : Playback β}
    (hid : request.playback = some id) (hp : e.instance? id = some p) :
    e.skipAsRecorded fuel request =
      ((request.brief p).skip fuel e.world p.start).bind fun r => (e.put r).conclude fuel := by
  have htold : e.modifyInstance id (fun p => (request.brief p, [])) =
      e.put (request.brief p, e.world) := by
    unfold modifyInstance
    rw [hp]
    rfl
  have hp' : (e.put (request.brief p, e.world)).instance? id = some (request.brief p) := by
    rw [instance?_put, hp, Option.map_some]
    exact congrArg some (if_pos rfl)
  simp only [skipAsRecorded, hid]
  rw [htold, skip_of_instance hp']
  refine Option.bind_congr fun r hr => ?_
  have hrid : r.1.id = p.id := (Playback.stages_skip hr).id_eq
  rw [put_put e (request.brief p, e.world) r hrid]

/-- To skip an instance as recorded is something that a host can do. -/
theorem Handled.skipAsRecorded (h : e.Handled) {e' : Engine β}
    (hr : e.skipAsRecorded fuel request = some e') : e'.Handled := by
  unfold Engine.skipAsRecorded at hr
  cases hid : request.playback with
  | none =>
    simp only [hid, Option.some.injEq] at hr
    exact hr ▸ h
  | some id =>
    simp only [hid] at hr
    have htold : (e.modifyInstance id fun p => (request.brief p, [])).Handled := by
      cases hp : e.instance? id with
      | none =>
        unfold modifyInstance
        rw [hp]
        exact h
      | some p =>
        -- What the record tells the instance, a host can tell it by a call of its own.
        have hset : e.perform fuel
            (.setConversation id (request.conversation.or p.conversation)) =
              some (e.modifyInstance id fun p => (request.brief p, [])) := by
          simp only [Engine.perform, modifyInstance, hp]
          rfl
        exact h.perform hset
    have hskip : (e.modifyInstance id fun p => (request.brief p, [])).perform fuel (.skip id) =
        some e' := hr
    exact htold.perform hskip

/-! ### The two side by side -/

/-- An engine in the middle of skipping everything, and one in which the instances have been skipped
one after the other. The requests are those that are left since both were `e`. -/
structure Abreast (e : Engine β) (requests : List SkipRequest) (a b : Engine β) : Prop where
  world : a.world = b.world.withRegistry b.world.registry.unqueued.purge
  setup : a.SameSetup b
  instances : b.instances = a.instances.filter fun p => !p.isGone
  /-- Instances that have gone are on the shelf in one engine, and are to come there in the other
  one. -/
  shelved : ∀ p ∈ a.instances, p.isGone = true → ∀ graph, a.Shelves p graph →
    b.parked.get? graph = some p.nodes
  unshelved : ∀ graph, (∀ p ∈ a.instances, p.isGone = true → ¬ a.Shelves p graph) →
    b.parked.get? graph = a.parked.get? graph
  linked : a.Linked
  filed : a.Filed
  handled : b.Handled
  queue : b.world.registry.takeQueue.1 = requests
  /-- An instance that has not had its turn is what it was. -/
  waits : ∀ request ∈ requests, ∀ id, request.playback = some id → b.instance? id = e.instance? id

/-- Once the queue has been emptied the two are abreast. -/
theorem Handled.abreast (h : e.Handled) :
    e.Abreast e.world.registry.takeQueue.1 (e.withRegistry e.world.registry.takeQueue.2) e where
  world := rfl
  setup := ⟨rfl, rfl, rfl, rfl, rfl⟩
  instances := by
    refine (List.filter_eq_self.mpr fun p hp => ?_).symm
    simp [h.settled.isGone_eq_false hp]
  shelved p hp hgone := by simp [h.settled.isGone_eq_false hp] at hgone
  unshelved _ _ := rfl
  linked := h.linked.steps (steps_takeQueue e)
  filed := h.filed.steps (steps_takeQueue e)
  handled := h
  queue := rfl
  waits _ _ _ _ := rfl

/-- Once nothing is left to be skipped, only the order of what is on the shelf is different. -/
theorem Abreast.looksLike (h : e.Abreast [] a b) : a.collect.LooksLike b := by
  have htidy := h.handled.settled.tidy
  have hworld : a.world = b.world := by
    rw [h.world, Registry.unqueued_eq_self h.queue, htidy.purge_eq]
    rfl
  have hpurge : a.withRegistry a.world.registry.purge = a := by
    rw [hworld, htidy.purge_eq, ← hworld]
    rfl
  have hdone : ∀ p ∈ a.instances, a.isDone p = p.isGone := by
    intro p hp
    -- What is done here and not gone is done on the other side, too, and there nothing is done.
    cases hgone : p.isGone with
    | true => exact a.isDone_of_isGone hgone
    | false =>
      have hmem : p ∈ b.instances := by
        rw [h.instances]
        exact List.mem_filter.mpr ⟨hp, by simp [hgone]⟩
      have hsame : a.isDone p = b.isDone p := isDone_congr rfl rfl (by rw [hworld])
      rw [hsame]
      exact h.handled.settled.swept p hmem
  have hgone : a.instances.filter a.isDone = a.instances.filter (·.isGone) :=
    List.filter_congr hdone
  have hkept : a.instances.filter (fun p => !a.isDone p) = b.instances := by
    rw [h.instances]
    exact List.filter_congr fun p hp => by rw [hdone p hp]
  have hcollect : a.collect = { a with
      instances := b.instances
      parked := ((a.instances.filter (·.isGone)).foldl park a).parked } := by
    rw [Engine.collect_eq, hpurge, hgone, hkept, foldl_park_withInstances]
    exact congrArg (fun e : Engine β => { e with instances := b.instances }) (foldl_park_eq a _)
  rw [hcollect]
  refine ⟨⟨h.setup.kinds, h.setup.graphs, h.setup.disabled, h.setup.nextId, h.setup.nextEdition⟩,
    hworld, rfl, fun graph => ?_⟩
  rcases a.get?_foldl_park (a.instances.filter (·.isGone)) graph with
    ⟨p, hp, hshelves, hget⟩ | ⟨hnone, hget⟩
  · -- An instance that is gone has left its nodes on the shelf, there as here.
    obtain ⟨hmem, hpgone⟩ := List.mem_filter.mp hp
    exact hget.trans (h.shelved p hmem hpgone graph hshelves).symm
  · refine hget.trans (h.unshelved graph fun p hp hpgone => ?_).symm
    exact hnone p (List.mem_filter.mpr ⟨hp, hpgone⟩)

/-- A request that is left is for an instance that both have, and for the node that it was started
at. -/
theorem Abreast.target (h : e.Abreast requests a b) (hrequest : request ∈ requests) {id : Nat}
    (hid : request.playback = some id) :
    ∃ p, b.instance? id = some p ∧ a.instance? id = some p ∧ request.start = p.start := by
  rw [← h.queue] at hrequest
  obtain ⟨record, hrecord, -, rfl⟩ := Registry.mem_takeQueue hrequest
  have hlinked := h.handled.linked
  obtain ⟨p, hp, rfl⟩ := hlinked.tables.named id (Registry.mem_attached.mpr ⟨record, hrecord, hid⟩)
  have hmem : p ∈ a.instances := by
    rw [h.instances] at hp
    exact List.mem_of_mem_filter hp
  have hfound := (Registry.record?_eq_some_iff hlinked.tables.single).mpr ⟨hrecord, hid⟩
  exact ⟨p, hlinked.tables.instance?_eq_some hp, h.linked.tables.instance?_eq_some hmem,
    (hlinked.linked p hp).start record hfound⟩

section

variable {rest : List SkipRequest} {id : Nat} {p : Playback β} {r : Playback β × World β}

/-- The instance that is skipped has not gone, so those that have are others. -/
theorem Abreast.id_ne_of_isGone (h : e.Abreast requests a b) (hp : b.instance? id = some p)
    {q : Playback β} (hq : q ∈ a.instances) (hgone : q.isGone = true) : q.id ≠ id := by
  rintro rfl
  have hmem := mem_instances_of_instance? hp
  have hmem' : p ∈ a.instances := by
    rw [h.instances] at hmem
    exact List.mem_of_mem_filter hmem
  have hsame : some q = some p := by
    rw [← h.linked.tables.instance?_eq_some hq, ← instance?_id hp]
    exact h.linked.tables.instance?_eq_some hmem'
  obtain rfl := Option.some.inj hsame
  simp [h.handled.settled.isGone_eq_false hmem] at hgone

/-- A skip leaves nothing of the records to be cleared away. -/
theorem Abreast.purge_eq (h : e.Abreast requests a b) (hleaves : p.SkipLeaves b.world p.start r) :
    r.2.registry.purge = r.2.registry := by
  rw [hleaves.registry]
  exact (h.handled.settled.tidy.drop p.id).purge_eq

theorem Abreast.world_put (h : e.Abreast requests a b)
    (hleaves : p.SkipLeaves b.world p.start r) : (b.put r).collect.world = r.2 := by
  rw [world_collect]
  change { r.2 with registry := r.2.registry.purge } = r.2
  rw [h.purge_eq hleaves]

/-- What a skip leaves of the instances is done if it has gone. -/
theorem Abreast.isDone_put (h : e.Abreast requests a b)
    (hleaves : p.SkipLeaves b.world p.start r) (hid : r.1.id = p.id) {q : Playback β}
    (hq : q ∈ (b.put r).instances) :
    ((b.put r).withRegistry (b.put r).world.registry.purge).isDone q = q.isGone := by
  rcases mem_instances_put hq with rfl | ⟨hq, hne⟩
  · exact isDone_of_finished _ hleaves.finished
  · -- The records of the others are still there.
    have hpurge : (b.put r).world.registry.purge = b.world.registry.drop p.id :=
      (h.purge_eq hleaves).trans hleaves.registry
    have hrecord : (b.put r).world.registry.purge.record? q.id = b.world.registry.record? q.id := by
      rw [hpurge, Registry.record?_drop]
      exact if_neg (hid ▸ hne)
    have hsame : ((b.put r).withRegistry (b.put r).world.registry.purge).isDone q = b.isDone q :=
      isDone_congr rfl rfl hrecord
    rw [hsame, h.handled.settled.swept q hq, h.handled.settled.isGone_eq_false hq]

/-- One engine keeps the instances that have gone, the other does not. -/
theorem Abreast.instances_put (h : e.Abreast requests a b) (hp : b.instance? id = some p)
    (hleaves : p.SkipLeaves b.world p.start r) (hid : r.1.id = p.id) (w : World β) :
    (b.put r).collect.instances = (a.put (r.1, w)).instances.filter fun q => !q.isGone := by
  rw [instances_collect]
  have hdone : (b.put r).instances.filter
      (fun q => !((b.put r).withRegistry (b.put r).world.registry.purge).isDone q) =
        (b.put r).instances.filter fun q => !q.isGone :=
    List.filter_congr fun q hq => by rw [h.isDone_put hleaves hid hq]
  rw [hdone]
  unfold put
  dsimp only
  rw [h.instances, List.filter_map, List.filter_map, List.filter_filter]
  refine congrArg _ (List.filter_congr fun q hq => ?_)
  cases hgone : q.isGone with
  | false => simp
  | true =>
    -- What has gone before is another instance, so the change does not reach it.
    have hne : q.id ≠ r.1.id := by
      rw [hid, instance?_id hp]
      exact h.id_ne_of_isGone hp hq hgone
    simp [hne, hgone]

/-- What is on the shelf once the instance has been skipped. -/
theorem Abreast.parked_put (h : e.Abreast requests a b) (hp : b.instance? id = some p)
    (hleaves : p.SkipLeaves b.world p.start r) (hid : r.1.id = p.id) (graph : String) :
    r.1.isGone = true ∧ a.Shelves r.1 graph ∧
        (b.put r).collect.parked.get? graph = some r.1.nodes ∨
      ¬ (r.1.isGone = true ∧ a.Shelves r.1 graph) ∧
        (b.put r).collect.parked.get? graph = b.parked.get? graph := by
  have hshelves : ∀ q : Playback β, b.Shelves q graph ↔ a.Shelves q graph := by
    intro q
    unfold Shelves
    rw [h.setup.graphs]
  have hmem := mem_put_self hp hid
  rw [Engine.collect_eq]
  rcases get?_foldl_park { (b.put r).withRegistry (b.put r).world.registry.purge with
      instances := (b.put r).instances.filter
        fun p => !((b.put r).withRegistry (b.put r).world.registry.purge).isDone p }
      ((b.put r).instances.filter
        ((b.put r).withRegistry (b.put r).world.registry.purge).isDone) graph with
    ⟨q, hq, hqs, hget⟩ | ⟨hnone, hget⟩
  · obtain ⟨hq, hdone⟩ := List.mem_filter.mp hq
    rw [h.isDone_put hleaves hid hq] at hdone
    rcases mem_instances_put hq with rfl | ⟨hq, -⟩
    · exact Or.inl ⟨hdone, (hshelves _).mp hqs, hget⟩
    · -- Only the instance that was skipped can be done now.
      simp [h.handled.settled.isGone_eq_false hq] at hdone
  · refine Or.inr ⟨?_, hget⟩
    rintro ⟨hgone, hs⟩
    refine hnone r.1 (List.mem_filter.mpr ⟨hmem, ?_⟩) ((hshelves _).mpr hs)
    rw [h.isDone_put hleaves hid hmem]
    exact hgone

/-- Once the next instance has been skipped in both, they are abreast again. -/
theorem Abreast.skipped (h : e.Abreast (request :: rest) a b)
    (hrequest : request.playback = some id) (hp : b.instance? id = some p)
    (hleaves : p.SkipLeaves b.world p.start r)
    (hid : r.1.id = p.id) {w : World β} (hw : w = r.2.withRegistry (a.world.registry.drop p.id))
    (hsteps : Steps a (a.put (r.1, w))) (hhandled : (b.put r).collect.Handled) :
    e.Abreast rest (a.put (r.1, w)) (b.put r).collect := by
  have hpid := instance?_id hp
  have hworld := h.world_put hleaves
  have hinstances := h.instances_put hp hleaves hid w
  have hfiled := h.filed.steps hsteps
  have hmem : r.1 ∈ (a.put (r.1, w)).instances := by
    obtain ⟨q, hq, hqa, -⟩ := h.target List.mem_cons_self hrequest
    obtain rfl := Option.some.inj (hq.symm.trans hp)
    exact mem_put_self hqa hid
  have hothers : ∀ q ∈ a.instances, q.id ≠ id → q ∈ (a.put (r.1, w)).instances := by
    intro q hq hne
    rw [← hpid, ← hid] at hne
    exact mem_put_of_ne hq hne
  have hqueue : ∀ q ∈ rest, q.playback ≠ some id := by
    have hpairwise := Registry.pairwise_takeQueue h.handled.linked.tables.single
    rw [h.queue, List.pairwise_cons] at hpairwise
    exact fun q hq => hpairwise.1 q hq id hrequest
  refine ⟨?_, ?_, hinstances, ?_, ?_, h.linked.steps hsteps, hfiled, hhandled, ?_, ?_⟩
  · rw [hworld, hleaves.registry, ← Registry.unqueued_purge_drop]
    change w = _
    rw [hw, h.world]
    rfl
  · rw [Engine.collect_eq, foldl_park_eq]
    exact ⟨h.setup.kinds, h.setup.graphs, h.setup.disabled, h.setup.nextId, h.setup.nextEdition⟩
  · intro q hq hgone graph hs
    rcases h.parked_put hp hleaves hid graph with ⟨-, hrs, hget⟩ | ⟨hnot, hget⟩
    · -- No other instance puts nodes on the shelf for the same graph.
      have hsame := hfiled.shelves_unique hq hmem hs hrs
      rcases mem_instances_put hq with rfl | ⟨-, hne⟩
      · exact hget
      · exact absurd hsame hne
    · rcases mem_instances_put hq with rfl | ⟨hq, -⟩
      · exact absurd ⟨hgone, hs⟩ hnot
      · exact hget.trans (h.shelved q hq hgone graph hs)
  · intro graph hnone
    rcases h.parked_put hp hleaves hid graph with ⟨hgone, hrs, -⟩ | ⟨-, hget⟩
    · exact absurd hrs (hnone r.1 hmem hgone)
    · refine hget.trans (h.unshelved graph fun q hq hgone => ?_)
      exact hnone q (hothers q hq (h.id_ne_of_isGone hp hq hgone)) hgone
  · rw [hworld, hleaves.registry, Registry.takeQueue_drop, h.queue, hpid,
      List.filter_cons_of_neg (by simp [hrequest])]
    exact List.filter_eq_self.mpr fun q hq => by simpa using hqueue q hq
  · intro other hother otherId hotherId
    have hne : otherId ≠ id := by
      rintro rfl
      exact hqueue other hother hotherId
    obtain ⟨q, hq, hqa, -⟩ := h.target (List.mem_cons_of_mem request hother) hotherId
    have hqid := instance?_id hq
    have hgone := h.handled.settled.isGone_eq_false (mem_instances_of_instance? hq)
    have hkept : q ∈ (b.put r).collect.instances := by
      rw [hinstances]
      refine List.mem_filter.mpr ⟨?_, by simp [hgone]⟩
      exact hothers q (mem_instances_of_instance? hqa) (hqid ▸ hne)
    rw [← h.waits other (List.mem_cons_of_mem request hother) otherId hotherId, hq, ← hqid]
    exact hhandled.linked.tables.instance?_eq_some hkept

/-- The next request either comes to no end in both, or leaves them abreast. -/
theorem Abreast.next (h : e.Abreast (request :: rest) a b) (fuel : Nat)
    (hrequest : request.playback = some id) :
    a.skipRequested fuel request = none ∧ b.skipAsRecorded fuel request = none ∨
      ∃ a', a.skipRequested fuel request = some a' ∧ (a'.world.commands = [] →
        ∃ b', b.skipAsRecorded fuel request = some b' ∧ e.Abreast rest a' b') := by
  obtain ⟨p, hp, hpa, hstart⟩ := h.target List.mem_cons_self hrequest
  have hb := skipAsRecorded_of_instance fuel hrequest hp
  have ha := skipRequested_of_instance fuel hrequest hpa
  -- The two worlds differ in what a skip does not see.
  have hlinked : ∀ reg : Registry, p.Linked reg → (request.brief p).Linked reg :=
    fun reg hl => hl.congr rfl rfl rfl rfl rfl
  have hl := hlinked _ (h.handled.linked.linked p (mem_instances_of_instance? hp))
  have hl' := hlinked _ (h.linked.linked p (mem_instances_of_instance? hpa))
  have hgraphs : (a.world.registry.drop p.id).isGraphRunning =
      (b.world.registry.drop p.id).isGraphRunning := by
    rw [h.world]
    change (b.world.registry.unqueued.purge.drop p.id).isGraphRunning = _
    rw [Registry.unqueued_purge_drop, Registry.isGraphRunning_unqueued_purge]
  have hskip := Playback.skip_withRegistry fuel request.start hl
    h.handled.linked.tables.single hl' h.linked.tables.single hgraphs
  have haworld : a.world = b.world.withRegistry a.world.registry := by
    rw [h.world]
    rfl
  rw [← haworld] at hskip
  rw [hskip] at ha
  rw [← hstart] at hb
  cases hr : (request.brief p).skip fuel b.world request.start with
  | none =>
    rw [hr] at ha hb
    exact Or.inl ⟨ha, hb⟩
  | some r =>
    rw [hr] at ha hb
    refine Or.inr ⟨_, ha, fun hquiet => ?_⟩
    have hcommands : (b.put r).world.commands = [] := hquiet
    have hb' : b.skipAsRecorded fuel request = some (b.put r).collect :=
      hb.trans (conclude_of_quiet hcommands)
    have hleaves := Playback.skip_leaves hr
    rw [hstart] at hleaves
    have hid : r.1.id = p.id := (Playback.stages_skip hr).id_eq
    exact ⟨_, hb', h.skipped hrequest hp ⟨hleaves.finished, hleaves.registry, hleaves.skips⟩ hid rfl
      (steps_skipRequested ha) (h.handled.skipAsRecorded hb')⟩

end

/-! ### One request after the other -/

/-- Whoever skips the instances that have not had their turn as recorded comes to what skipping
everything comes to. -/
theorem Abreast.skipRequests {f : Engine β → SkipRequest → Option (Engine β)}
    (h : e.Abreast requests a b)
    (hf : ∀ b : Engine β, ∀ request ∈ requests, ∀ id, request.playback = some id →
      b.instance? id = e.instance? id → f b request = b.skipAsRecorded fuel request)
    (hattached : ∀ request ∈ requests, request.playback.isSome = true)
    (hquiet : a.SkipsQuietly fuel requests) :
    Option.Rel LooksLike ((a.skipRequests fuel requests).map collect) (requests.foldlM f b) := by
  induction requests generalizing a b with
  | nil => exact .some h.looksLike
  | cons request rest ih =>
    obtain ⟨id, hid⟩ := Option.isSome_iff_exists.mp (hattached request List.mem_cons_self)
    have hone := hf b request List.mem_cons_self id hid (h.waits request List.mem_cons_self id hid)
    simp only [Engine.skipRequests, List.foldlM_cons, hone, Option.bind_eq_bind]
    rcases h.next fuel hid with ⟨ha, hb⟩ | ⟨a', ha, hnext⟩
    · -- If one of the two calls does not return, neither does the other.
      rw [ha, hb]
      exact .none
    · obtain ⟨hcommands, hquiet'⟩ := hquiet a' ha
      obtain ⟨b', hb, habreast⟩ := hnext hcommands
      rw [ha, hb, Option.bind_some, Option.bind_some, flushAll_of_quiet hcommands,
        Option.bind_some]
      exact ih habreast (fun b request hmem => hf b request (List.mem_cons_of_mem _ hmem))
        (fun request hmem => hattached request (List.mem_cons_of_mem _ hmem)) hquiet'

theorem skipByItself_eq {id : Nat} {p : Playback β} (hid : request.playback = some id)
    (hp : e.instance? id = some p)
    (hc : request.conversation = none ∨ request.conversation = p.conversation) :
    e.skipByItself fuel request = e.skipAsRecorded fuel request := by
  have htold : request.brief p = p := by
    unfold SkipRequest.brief
    rcases hc with hc | hc <;> rw [hc]
    · rw [Option.none_or]
    · rw [Option.or_self]
  rw [skipAsRecorded_of_instance fuel hid hp, htold]
  simp only [skipByItself, hid]
  exact skip_of_instance hp

/-- Whatever a host has done, to skip everything is to skip the instances in the queue one after the
other in the order of their records, as long as none of the records comes from a save and no skip
raises commands: the same calls are made and the same events are heard in the same order, and the
engines are the same in the end, or neither comes to an end. Each instance is told the conversation
of its record before, which makes no difference where it has none of its own to lose. -/
theorem skipAll_looksLike (h : e.Handled) (fuel : Nat)
    (hattached : ∀ request ∈ e.world.registry.takeQueue.1, request.playback.isSome = true)
    (hquiet : (e.withRegistry e.world.registry.takeQueue.2).SkipsQuietly fuel
      e.world.registry.takeQueue.1) :
    Option.Rel LooksLike (e.skipAll fuel)
        (e.world.registry.takeQueue.1.foldlM (skipAsRecorded fuel) e) ∧
      ((∀ request ∈ e.world.registry.takeQueue.1, ∀ id p, request.playback = some id →
          e.instance? id = some p →
          request.conversation = none ∨ request.conversation = p.conversation) →
        Option.Rel LooksLike (e.skipAll fuel)
          (e.world.registry.takeQueue.1.foldlM (skipByItself fuel) e)) := by
  have hskipAll : e.skipAll fuel =
      ((e.withRegistry e.world.registry.takeQueue.2).skipRequests fuel
        e.world.registry.takeQueue.1).map collect :=
    Option.map_eq_bind.symm
  rw [hskipAll]
  constructor
  · exact h.abreast.skipRequests (fun _ _ _ _ _ _ => rfl) hattached hquiet
  · intro hagree
    refine h.abreast.skipRequests (fun b request hrequest id hid hsame => ?_) hattached hquiet
    obtain ⟨p, hp, -⟩ := h.abreast.target hrequest hid
    exact skipByItself_eq hid (hsame.trans hp) (hagree request hrequest id p hid hp)

/-- A circle that runs waits in the skip queue, and to skip it raises no commands. -/
theorem reachable_queued_circle : ∃ e : Engine Builtin, Reachable (fun _ => True) e ∧
    e.world.registry.takeQueue.1 = [⟨"circle", some 0, 1, none⟩] ∧
    (e.withRegistry e.world.registry.takeQueue.2).SkipsQuietly 7 e.world.registry.takeQueue.1 := by
  have htrigger : ∃ e, ((ofKinds {} [echo]).register circle).perform 1
      (.trigger "circle" { start := some 1 }) = some e ∧
      e.world.registry.takeQueue.1 = [⟨"circle", some 0, 1, none⟩] ∧
      (e.withRegistry e.world.registry.takeQueue.2).SkipsQuietly 7
        e.world.registry.takeQueue.1 := by
    refine ⟨_, perform_trigger (by decide) (by decide) rfl rfl
      ((Playback.play_of_ne_zero 1 _ true Nat.one_ne_zero (by decide)).trans rfl) rfl, rfl, ?_⟩
    intro e' he'
    obtain rfl := Option.some.inj he'
    exact ⟨rfl, trivial⟩
  obtain ⟨e, he, hqueue⟩ := htrigger
  have hregistered : Reachable (fun _ => True) ((ofKinds {} [echo]).register circle) :=
    (Reachable.start {} [echo]).register circle trivial
  exact ⟨e, hregistered.perform trivial he, hqueue⟩

/-- The circle has not been told of a conversation, so to skip everything is to skip it. -/
theorem skipAll_looksLike_circle : ∃ e : Engine Builtin, Reachable (fun _ => True) e ∧
    e.world.registry.takeQueue.1 = [⟨"circle", some 0, 1, none⟩] ∧
    Option.Rel LooksLike (e.skipAll 7) ((e.skip 7 0).map (·.1)) := by
  obtain ⟨e, he, hqueue, hquiet⟩ := reachable_queued_circle
  have hattached : ∀ request ∈ e.world.registry.takeQueue.1, request.playback.isSome = true := by
    simp [hqueue]
  have hagree : ∀ request ∈ e.world.registry.takeQueue.1, ∀ id p, request.playback = some id →
      e.instance? id = some p →
      request.conversation = none ∨ request.conversation = p.conversation := by
    simp [hqueue]
  have hrel := (skipAll_looksLike he.handled 7 hattached hquiet).2 hagree
  rw [hqueue] at hrel
  refine ⟨e, he, hqueue, ?_⟩
  cases hskip : (e.skip 7 0).map (·.1) with
  | none => simpa [skipByItself, hskip] using hrel
  | some e' => simpa [skipByItself, hskip] using hrel

end Engine

end Cutscene
