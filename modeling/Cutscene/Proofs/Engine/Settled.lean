import Cutscene.Proofs.Engine.Operation

/-!
# Engines that have been cleared up

Operations may leave records behind that are not necessary and instances that are done, but each
clears them away at its end, unless it has not come to touch the registry or the phase of an
instance. `Engine.Settled` is what is true in between (`Settled.perform`): to clear up once more
would change nothing (`Settled.collect_eq`).
-/

namespace Cutscene

variable {β : Type}

/-- Every record is there for a reason. -/
def Registry.IsTidy (reg : Registry) : Prop := ∀ r ∈ reg.records, r.isNecessary = true

theorem Registry.tidy_purge (reg : Registry) : reg.purge.IsTidy :=
  fun _ hr => (List.mem_filter.mp hr).2

theorem Registry.tidy_load (data : String) : (Registry.load data).1.IsTidy :=
  fun _ hr => (settled_of_mem_load hr).necessary

theorem Registry.IsTidy.purge_eq {reg : Registry} (h : reg.IsTidy) : reg.purge = reg :=
  congrArg Registry.mk (List.filter_eq_self.mpr h)

theorem Registry.IsTidy.drop {reg : Registry} (h : reg.IsTidy) (id : Nat) :
    (reg.drop id).IsTidy :=
  fun r hr => h r (List.mem_of_mem_filter hr)

namespace Engine

/-- Nothing is there that would be cleared away. -/
structure Settled (e : Engine β) : Prop where
  tidy : e.world.registry.IsTidy
  swept : ∀ p ∈ e.instances, e.isDone p = false

theorem settled_ofKinds (config : Config) (kinds : List (NodeKind β)) :
    (ofKinds config kinds).Settled where
  tidy _ hr := absurd hr List.not_mem_nil
  swept _ hp := absurd hp List.not_mem_nil

variable {e e' : Engine β}

/-- Whether an instance is done is for its phase, its settings and its record to say. -/
theorem isDone_congr {p p' : Playback β} (hphase : p'.phase = p.phase)
    (hsettings : p'.settings = p.settings)
    (hr : e'.world.registry.record? p'.id = e.world.registry.record? p.id) :
    e'.isDone p' = e.isDone p := by
  unfold isDone
  rw [hphase, hsettings, hr]

theorem collect_eq (e : Engine β) :
    e.collect = (e.instances.filter (e.withRegistry e.world.registry.purge).isDone).foldl park
      { e.withRegistry e.world.registry.purge with
        instances := e.instances.filter
          fun p => !(e.withRegistry e.world.registry.purge).isDone p } := by
  unfold collect
  simp only [List.partition_eq_filter_filter]
  rfl

theorem instances_collect (e : Engine β) :
    e.collect.instances =
      e.instances.filter fun p => !(e.withRegistry e.world.registry.purge).isDone p := by
  rw [collect_eq]
  exact (foldl_park_instances _ _).1

theorem world_collect (e : Engine β) :
    e.collect.world = { e.world with registry := e.world.registry.purge } := by
  rw [collect_eq]
  exact (foldl_park_instances _ _).2

theorem settled_collect (e : Engine β) : e.collect.Settled where
  tidy := by
    rw [world_collect]
    exact e.world.registry.tidy_purge
  swept p hp := by
    rw [instances_collect] at hp
    -- Only what is not done is kept, and a purge makes nothing else done.
    have hkept : (e.withRegistry e.world.registry.purge).isDone p = false := by
      simpa using (List.mem_filter.mp hp).2
    rw [← hkept]
    refine isDone_congr rfl rfl ?_
    rw [world_collect]
    rfl

/-- What is clear already stays as it is. -/
theorem Settled.collect_eq (h : e.Settled) : e.collect = e := by
  have hpurge : e.withRegistry e.world.registry.purge = e := by
    rw [h.tidy.purge_eq]
    rfl
  have hdone : e.instances.filter e.isDone = [] := by
    refine List.filter_eq_nil_iff.mpr fun p hp => ?_
    simp [h.swept p hp]
  have hkept : e.instances.filter (fun p => !e.isDone p) = e.instances := by
    refine List.filter_eq_self.mpr fun p hp => ?_
    simp [h.swept p hp]
  rw [Engine.collect_eq, hpurge, hdone, hkept]
  rfl

/-! ### What does not touch records or phases -/

theorem Settled.congr (h : e.Settled) (hr : e'.world.registry = e.world.registry)
    (hi : ∀ p' ∈ e'.instances, ∃ p ∈ e.instances, p'.id = p.id ∧ p'.phase = p.phase ∧
      p'.settings = p.settings) : e'.Settled where
  tidy := by
    rw [hr]
    exact h.tidy
  swept p' hp' := by
    obtain ⟨p, hp, hid, hphase, hsettings⟩ := hi p' hp'
    have hrecord : e'.world.registry.record? p'.id = e.world.registry.record? p.id := by
      rw [hr, hid]
    exact (isDone_congr hphase hsettings hrecord).trans (h.swept p hp)

theorem Settled.of_instances_eq (h : e.Settled) (hr : e'.world.registry = e.world.registry)
    (hi : e'.instances = e.instances) : e'.Settled :=
  h.congr hr fun p hp => ⟨p, hi ▸ hp, rfl, rfl, rfl⟩

theorem Settled.of_instances_eq_nil (ht : e.world.registry.IsTidy) (hi : e.instances = []) :
    e.Settled where
  tidy := ht
  swept p hp := by simp [hi] at hp

theorem Settled.modifyInstance (h : e.Settled) (id : Nat) {f : Playback β → Playback β}
    (hf : ∀ p, (f p).id = p.id ∧ (f p).phase = p.phase ∧ (f p).settings = p.settings) :
    (e.modifyInstance id fun p => (f p, [])).Settled := by
  unfold Engine.modifyInstance
  cases hp : e.instance? id with
  | none => exact h
  | some p =>
    refine h.congr rfl fun q hq => ?_
    obtain ⟨q, hmem, rfl⟩ := List.mem_map.mp hq
    split_ifs
    · -- The instance that is changed is the one of that id.
      exact ⟨p, mem_instances_of_instance? hp, hf p⟩
    · exact ⟨q, hmem, rfl, rfl, rfl⟩

variable [Behaviour β] {fuel : Nat}

/-- A graph that is refused leaves a notice at most. -/
theorem Settled.begin_error (h : e.Settled) {graph : String} {trigger : Trigger}
    {error : EngineError} (hr : e.begin fuel graph trigger = some (e', .error error)) :
    e'.Settled := by
  rcases begin_cases hr with ⟨_, -, hrefused⟩ | ⟨_, id, _, _, hanswer, -⟩
  · rcases hrefused with rfl | rfl
    · exact h
    · exact h.of_instances_eq rfl rfl
  · simp at hanswer

theorem resumePausedNow_error {graph : String} {rerun : Bool} {error : EngineError}
    (h : e.resumePausedNow fuel graph rerun = some (e', .error error)) : e' = e := by
  rcases resumePausedNow_cases h with ⟨_, -, rfl⟩ | ⟨_, ids, more, -, -, hanswer⟩
  · rfl
  · simp at hanswer

/-! ### Operations clear up -/

theorem settled_conclude (h : e.conclude fuel = some e') : e'.Settled := by
  obtain ⟨e₁, -, rfl⟩ := conclude_cases h
  exact settled_collect e₁

theorem Settled.onInstance (h : e.Settled) {id : Nat}
    {f : Playback β → World β → Option (Playback β × World β)} {answer : Except EngineError Unit}
    (hr : e.onInstance fuel id f = some (e', answer)) : e'.Settled := by
  rcases onInstance_cases hr with ⟨-, rfl, -⟩ | ⟨p, r, -, -, h₁, -⟩
  · exact h
  · exact settled_conclude h₁

theorem Settled.trigger (h : e.Settled) {graph : String} {trigger : Trigger}
    {answer : Except EngineError Nat} (hr : e.trigger fuel graph trigger = some (e', answer)) :
    e'.Settled := by
  rcases trigger_cases hr with ⟨error, -, h₁⟩ | ⟨e₁, id, -, -, h₂⟩
  · exact h.begin_error h₁
  · exact settled_conclude h₂

theorem Settled.resumePaused (h : e.Settled) {graph : String} {rerun : Bool}
    {answer : Except EngineError (List Nat)}
    (hr : e.resumePaused fuel graph rerun = some (e', answer)) : e'.Settled := by
  rcases resumePaused_cases hr with ⟨error, -, h₁⟩ | ⟨e₁, ids, -, -, h₂⟩
  · rw [resumePausedNow_error h₁]
    exact h
  · exact settled_conclude h₂

theorem Settled.kill (h : e.Settled) {id : Nat} {answer : Except EngineError Unit}
    (hr : e.kill fuel id = some (e', answer)) : e'.Settled := by
  rcases kill_cases hr with ⟨-, rfl, -⟩ | ⟨h₁, -⟩
  · exact h
  · exact settled_conclude h₁

omit [Behaviour β] in
theorem Settled.resetRecord (h : e.Settled) (id : Nat) (unqueue : Bool) :
    (e.resetRecord id unqueue).1.Settled := by
  unfold Engine.resetRecord
  split_ifs
  · exact h
  · exact settled_collect _

omit [Behaviour β] in
theorem settled_load (e : Engine β) (data : String) : (e.load data).Settled := by
  refine .of_instances_eq_nil ?_ e.instances_foldl_killOne
  have hquiet := (e.killAll.withRegistry (Registry.load data).1).world.quiet_noticeAll
    (Registry.load data).2
  unfold Engine.load noticeAll
  rw [hquiet.registry]
  exact Registry.tidy_load data

/-- Whatever a host does, nothing is left in the end that would be cleared away. -/
theorem Settled.perform (h : e.Settled) {op : Operation β} (hr : e.perform fuel op = some e') :
    e'.Settled := by
  cases op with
  | trigger graph trigger =>
    obtain ⟨answer, hr⟩ := exists_of_map_fst hr
    exact h.trigger hr
  | skip id =>
    obtain ⟨answer, hr⟩ := exists_of_map_fst hr
    exact h.onInstance hr
  | skipFrom id start =>
    obtain ⟨answer, hr⟩ := exists_of_map_fst hr
    exact h.onInstance hr
  | pause id =>
    obtain ⟨answer, hr⟩ := exists_of_map_fst hr
    exact h.onInstance hr
  | resume id start points parameters rerun =>
    obtain ⟨answer, hr⟩ := exists_of_map_fst hr
    exact h.onInstance hr
  | resumePaused graph rerun =>
    obtain ⟨answer, hr⟩ := exists_of_map_fst hr
    exact h.resumePaused hr
  | kill id =>
    obtain ⟨answer, hr⟩ := exists_of_map_fst hr
    exact h.kill hr
  | killGraph graph =>
    obtain ⟨count, hr⟩ := exists_of_map_fst hr
    exact settled_conclude (killGraph_cases hr).1
  | skipAll =>
    obtain ⟨e₁, -, rfl⟩ := skipAll_cases hr
    exact settled_collect e₁
  | tick nanoseconds =>
    obtain ⟨e₁, -, rfl⟩ := tick_cases hr
    exact settled_collect e₁
  | resetRecord id unqueue =>
    obtain rfl := Option.some.inj hr
    exact h.resetRecord id unqueue
  | killAll =>
    obtain rfl := Option.some.inj hr
    -- Neither an instance nor a record is left.
    exact .of_instances_eq_nil (fun r hr => absurd hr List.not_mem_nil) e.instances_foldl_killOne
  | load data =>
    obtain rfl := Option.some.inj hr
    exact e.settled_load data
  | loadSlot slot =>
    obtain rfl := Option.some.inj hr
    exact (e.settled_load slot.records).of_instances_eq rfl rfl
  | setParameters id parameters =>
    obtain rfl := Option.some.inj hr
    exact h.modifyInstance id fun p => ⟨rfl, rfl, rfl⟩
  | setConversation id conversation =>
    obtain rfl := Option.some.inj hr
    exact h.modifyInstance id fun p => ⟨rfl, rfl, rfl⟩
  | forgetChoices id =>
    obtain rfl := Option.some.inj hr
    exact h.modifyInstance id fun p => ⟨rfl, rfl, rfl⟩
  | _ =>
    obtain rfl := Option.some.inj hr
    exact h.of_instances_eq rfl rfl

end Engine

end Cutscene
