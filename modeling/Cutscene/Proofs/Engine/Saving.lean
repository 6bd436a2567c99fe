import Cutscene.Proofs.Engine.Consistent
import Cutscene.Proofs.ParameterSet

/-!
# Saving an engine

The snapshots that an engine keeps in its records are written by `ParameterSet.snapshot` or come
from a save, so none of them holds a separator (`plain_of_reachable`), and with `Registry.load_save`
nothing of a record that does not run is lost but blanks around its graph and an empty name of a
conversation: `load_save_of_reachable`.
-/

namespace Cutscene

variable {β : Type}

namespace Registry

/-- No snapshot holds a separator. -/
def IsPlain (reg : Registry) : Prop := ∀ r ∈ reg.records, Record.Unseparated r.parameters

/-- The records that come from a save. -/
def detached (reg : Registry) : List Record := reg.records.filter (·.playback.isNone)

/-! ### Changes of a registry -/

variable {reg reg' : Registry} {id : Nat}

theorem mem_modify {f : Record → Record} {r : Record} (h : r ∈ (reg.modify id f).records) :
    r ∈ reg.records ∨ ∃ q ∈ reg.records, f q = r := by
  obtain ⟨records⟩ := reg
  simp only [modify] at h ⊢
  induction records with
  | nil => exact Or.inl h
  | cons a rest ih =>
    rw [modifyFirst] at h
    split_ifs at h
    · rcases List.mem_cons.mp h with rfl | hrest
      · exact Or.inr ⟨a, List.mem_cons_self, rfl⟩
      · exact Or.inl (List.mem_cons_of_mem a hrest)
    · rcases List.mem_cons.mp h with rfl | hrest
      · exact Or.inl List.mem_cons_self
      · refine (ih hrest).imp (List.mem_cons_of_mem a) ?_
        rintro ⟨q, hq, rfl⟩
        exact ⟨q, List.mem_cons_of_mem a hq, rfl⟩

theorem IsPlain.modify (h : reg.IsPlain) {f : Record → Record}
    (hf : ∀ q ∈ reg.records, Record.Unseparated (f q).parameters) : (reg.modify id f).IsPlain := by
  intro r hr
  rcases mem_modify hr with hold | ⟨q, hq, rfl⟩
  · exact h r hold
  · exact hf q hq

theorem IsPlain.enter (h : reg.IsPlain) (graph : String) (start : Nat) (queue : Bool)
    (conversation : Option String) : (reg.enter id graph start queue conversation).IsPlain := by
  have hempty : Record.Unseparated "" := fun _ _ => List.not_mem_nil
  unfold Registry.enter
  dsimp only
  split_ifs
  · exact h.modify fun _ _ => hempty
  · intro r hr
    rcases List.mem_append.mp hr with hold | hnew
    · exact h r hold
    · rw [List.mem_singleton.mp hnew]
      exact hempty

theorem IsPlain.pause (h : reg.IsPlain) (points : List Nat) (parameters : ParameterSet) :
    (reg.pause id points parameters.snapshot).IsPlain :=
  h.modify fun _ _ _ hseparator => parameters.not_mem_snapshot hseparator

theorem IsPlain.filter (h : reg.IsPlain) (keep : Record → Bool) :
    IsPlain ⟨reg.records.filter keep⟩ := fun r hr => h r (List.mem_of_mem_filter hr)

theorem IsPlain.trim (h : reg.IsPlain) (ht : reg.Trim reg') : reg'.IsPlain := by
  intro r hr
  obtain ⟨q, hq, queued, rfl⟩ := ht.exists_mem hr
  exact h q hq

theorem IsAnew.isPlain (h : reg.IsAnew) : reg.IsPlain := by
  rcases h with rfl | ⟨data, rfl⟩
  · exact fun r hr => absurd hr List.not_mem_nil
  · exact fun r hr => (settled_of_mem_load hr).storable.parameters

/-- A change of the record of a playback leaves those that come from a save alone. -/
theorem detached_modify {f : Record → Record} (hf : KeepsPlayback f) :
    (reg.modify id f).detached = reg.detached :=
  filter_modifyFirst (fun r hr => by simp [hf r, hr]) reg.records

theorem detached_enter (graph : String) (start : Nat) (queue : Bool)
    (conversation : Option String) :
    (reg.enter id graph start queue conversation).detached = reg.detached := by
  unfold Registry.enter
  dsimp only
  split_ifs
  · exact detached_modify fun _ => rfl
  · simp [detached]

theorem detached_drop : (reg.drop id).detached = reg.detached := by
  simp only [detached, drop, List.filter_filter]
  refine List.filter_congr fun r _ => ?_
  cases r.playback <;> simp

end Registry

/-! ### What playbacks do -/

namespace Playback

variable {p p' : Playback β} {reg reg' : Registry} {kinds : List Event.Kind}

theorem plain_of_passage (h : Passage p p' reg reg' kinds) (hp : reg.IsPlain) : reg'.IsPlain := by
  cases h with
  | calm => exact hp
  | entered start queue => exact hp.enter _ _ _ _
  | paused parameters => exact hp.pause _ parameters
  | ended => exact hp.filter _
  | killed => exact hp.filter _
  | lapsed => exact hp

theorem detached_of_passage (h : Passage p p' reg reg' kinds) : reg'.detached = reg.detached := by
  cases h with
  | calm => rfl
  | entered start queue => exact Registry.detached_enter _ _ _ _
  | paused parameters => exact Registry.detached_modify fun _ => rfl
  | ended => exact Registry.detached_drop
  | killed => exact Registry.detached_drop
  | lapsed => rfl

theorem plain_of_stages {s s' : Playback β × World β} (h : Stages s s')
    (hp : s.2.registry.IsPlain) : s'.2.registry.IsPlain := by
  induction h with
  | refl => exact hp
  | tail _ hs ih =>
    obtain ⟨_, hpassage, -⟩ := hs.passage
    exact plain_of_passage hpassage ih

theorem detached_of_stages {s s' : Playback β × World β} (h : Stages s s') :
    s'.2.registry.detached = s.2.registry.detached := by
  induction h with
  | refl => rfl
  | tail _ hs ih =>
    obtain ⟨_, hpassage, -⟩ := hs.passage
    exact (detached_of_passage hpassage).trans ih

end Playback

namespace Engine

/-! ### Snapshots stay free of separators -/

variable [Behaviour β] {fuel : Nat} {e e' : Engine β}

theorem plain_of_move {acts : List (Act β)} (hm : Move e acts e')
    (h : e.world.registry.IsPlain) : e'.world.registry.IsPlain := by
  cases hm with
  | act hp hop hr => exact Playback.plain_of_stages (Playback.stages_perform hop hr) h
  | adjust hp ha => exact h
  | around hr he =>
    rw [hr]
    exact h
  | trim ht => exact h.trim ht
  | shelve hget => exact h
  | create edition ha => exact h
  | sweep hk => exact h
  | reload hnone hr => exact hr.isPlain

theorem plain_of_course {acts : List (Act β)} (hc : Course e acts e')
    (h : e.world.registry.IsPlain) : e'.world.registry.IsPlain := by
  induction hc with
  | refl => exact h
  | tail _ hm ih => exact plain_of_move hm ih

omit [Behaviour β] in
theorem plain_resetRecord (h : e.world.registry.IsPlain) (id : Nat) (unqueue : Bool) :
    (e.resetRecord id unqueue).1.world.registry.IsPlain := by
  unfold Engine.resetRecord
  split_ifs
  · exact h
  · have hreset : (e.world.registry.modify id (·.reset unqueue)).IsPlain :=
      h.modify fun q hq => h q hq
    rw [world_collect]
    exact (hreset.filter _).filter _

theorem plain_perform {op : Operation β} (hr : e.perform fuel op = some e')
    (h : e.world.registry.IsPlain) : e'.world.registry.IsPlain := by
  cases hop : op.isReset with
  | false =>
    obtain ⟨acts, hc⟩ := moves_perform hop hr
    exact plain_of_course hc h
  | true =>
    cases op with
    | resetRecord id unqueue =>
      obtain rfl := Option.some.inj hr
      exact plain_resetRecord h id unqueue
    | _ => simp [Operation.isReset] at hop

theorem plain_of_reachable {allowed : Operation β → Prop} (h : Reachable allowed e) :
    e.world.registry.IsPlain := by
  induction h with
  | start config kinds => exact fun r hr => absurd hr List.not_mem_nil
  | perform _ _ hr ih => exact plain_perform hr ih

/-! ### Resuming what has been loaded -/

section

omit [Behaviour β]

theorem graphs_killOne (e : Engine β) (id : Nat) : (e.killOne id).graphs = e.graphs := by
  unfold killOne
  cases e.instance? id with
  | none => rfl
  | some p =>
    dsimp only
    unfold release
    cases (e.put (p.kill e.world)).instance? id with
    | none => rfl
    | some q =>
      obtain ⟨parked, hpark, -⟩ := (e.put (p.kill e.world)).park_eq q
      dsimp only
      rw [hpark]
      rfl

theorem graphs_foldl_killOne (e : Engine β) (ids : List Nat) :
    (ids.foldl killOne e).graphs = e.graphs := by
  induction ids generalizing e with
  | nil => rfl
  | cons id rest ih =>
    rw [List.foldl_cons, ih]
    exact e.graphs_killOne id

/-- A load leaves the graphs alone. -/
theorem graphs_load (e : Engine β) (data : String) : (e.load data).graphs = e.graphs :=
  e.graphs_foldl_killOne _

theorem registry_load (e : Engine β) (data : String) :
    (e.load data).world.registry = (Registry.load data).1 := by
  have hquiet := (e.killAll.withRegistry (Registry.load data).1).world.quiet_noticeAll
    (Registry.load data).2
  exact hquiet.registry

theorem registry_modifyInstance (e : Engine β) (id : Nat)
    (f : Playback β → Playback β × List Notice) :
    (e.modifyInstance id f).world.registry = e.world.registry := by
  unfold modifyInstance
  cases e.instance? id with
  | none => rfl
  | some p => exact (e.world.quiet_noticeAll _).registry

theorem exists_modifyInstance {e : Engine β} {id : Nat} {p : Playback β}
    (hp : e.instance? id = some p) {f : Playback β → Playback β × List Notice}
    (hf : ∀ p : Playback β, (f p).1.id = p.id) :
    ∃ q, (e.modifyInstance id f).instance? id = some q := by
  refine ⟨(f p).1, ?_⟩
  unfold modifyInstance
  rw [hp]
  dsimp only
  rw [instance?_put, hp, Option.map_some, if_pos (hf p).symm]

/-- What is left once the first record of a graph is taken off that a resume looks for. -/
theorem filter_dropDetachedPaused (reg : Registry) (graph : String) :
    (reg.dropDetachedPaused graph).records.filter (Registry.isDetachedPaused graph) =
      (reg.records.filter (Registry.isDetachedPaused graph)).tail := by
  obtain ⟨records⟩ := reg
  simp only [Registry.dropDetachedPaused]
  induction records with
  | nil => rfl
  | cons r rest ih =>
    by_cases hr : Registry.isDetachedPaused graph r
    · rw [List.eraseP_cons_of_pos hr, List.filter_cons_of_pos hr]
      rfl
    · rw [List.eraseP_cons_of_neg hr, List.filter_cons_of_neg hr, List.filter_cons_of_neg hr, ih]

theorem filter_isDetachedPaused (reg : Registry) (graph : String) :
    reg.records.filter (Registry.isDetachedPaused graph) =
      reg.detached.filter fun r => r.graph = graph && r.isPaused := by
  rw [Registry.detached, List.filter_filter]
  refine List.filter_congr fun r _ => ?_
  unfold Registry.isDetachedPaused
  cases r.playback.isNone <;> simp

end

/-- Resuming an instance leaves the other records of a graph to be resumed. -/
theorem resumeRecord_some {id : Nat} {p : Playback β} (hp : e.instance? id = some p) {r : Record}
    {rerun : Bool} {ids : List Nat} (h : e.resumeRecord fuel id r rerun = some (e', ids)) :
    ids = [id] ∧ e'.graphs = e.graphs ∧
      e'.world.registry.detached = e.world.registry.detached := by
  unfold resumeRecord at h
  rw [hp] at h
  obtain ⟨s, hs, heq⟩ := Option.map_eq_some_iff.mp h
  obtain ⟨rfl, rfl⟩ := Prod.mk.inj heq
  have hresume : p.perform fuel e.world
      (.resume r.start r.resumePoints r.parameters rerun) = some s := hs
  exact ⟨rfl, rfl, Playback.detached_of_stages (Playback.stages_perform rfl hresume)⟩

/-- All records are resumed that come from a save and are paused, each on an instance. -/
theorem length_resumeDetached {graph : String} {rerun : Bool} {count : Nat} {ids : List Nat}
    (hg : e.graphs.contains graph = true)
    (hcount : (e.world.registry.records.filter
      (Registry.isDetachedPaused graph)).length = count)
    (h : resumeDetached fuel rerun graph count e = some (e', ids)) : ids.length = count := by
  induction count generalizing e e' ids with
  | zero =>
    obtain ⟨-, rfl⟩ := Prod.mk.inj (Option.some.inj h)
    rfl
  | succ count ih =>
    rw [resumeDetached] at h
    have hlater : (e.withRegistry (e.world.registry.dropDetachedPaused graph)).graphs.contains
        graph = true := hg
    obtain ⟨e₁, id, p, hspawn, hp, hgraphs⟩ := exists_spawn hlater
    cases hfound : e.world.registry.detachedPaused? graph with
    | none =>
      have hnil : e.world.registry.records.filter (Registry.isDetachedPaused graph) = [] := by
        refine List.filter_eq_nil_iff.mpr fun r hr => ?_
        exact List.find?_eq_none.mp hfound r hr
      rw [hnil] at hcount
      simp at hcount
    | some r =>
      rw [hfound] at h
      dsimp only at h
      rw [hspawn] at h
      simp only [Option.bind_eq_bind, Option.bind_eq_some_iff, Prod.exists, Option.pure_def,
        Option.some.injEq, Prod.mk.injEq] at h
      obtain ⟨e₂, first, h₂, e₃, more, h₃, rfl, rfl⟩ := h
      obtain ⟨q, hq⟩ := exists_modifyInstance hp
        (f := fun p => ({ p with conversation := r.conversation }, [])) fun _ => rfl
      obtain ⟨rfl, hgraphs₂, hdetached⟩ := resumeRecord_some hq h₂
      rw [graphs_modifyInstance, hgraphs] at hgraphs₂
      rw [registry_modifyInstance, registry_spawn hspawn] at hdetached
      -- One record less is left for the rest.
      have hrest : (e₂.world.registry.records.filter
          (Registry.isDetachedPaused graph)).length = count := by
        have hdropped : (e.withRegistry
            (e.world.registry.dropDetachedPaused graph)).world.registry =
            e.world.registry.dropDetachedPaused graph := rfl
        rw [filter_isDetachedPaused, hdetached, ← filter_isDetachedPaused, hdropped,
          filter_dropDetachedPaused, List.length_tail, hcount]
        rfl
      have hmore := ih (by rw [hgraphs₂]; exact hg) hrest h₃
      rw [List.length_append, hmore, List.length_singleton, Nat.add_comm]

theorem resumeAttached_of_detached {rerun : Bool} {records : List Record}
    (h : ∀ r ∈ records, r.playback = none) :
    e.resumeAttached fuel rerun records = some (e, []) := by
  induction records with
  | nil => rfl
  | cons r rest ih =>
    rw [resumeAttached, h r List.mem_cons_self]
    exact ih fun q hq => h q (List.mem_cons_of_mem r hq)

/-- After a load, all paused records of a graph that is known are resumed. -/
theorem length_resumePaused_load {data graph : String} {rerun : Bool}
    {answer : Except EngineError (List Nat)} (hg : e.graphs.contains graph = true)
    (h : (e.load data).resumePaused fuel graph rerun = some (e', answer)) :
    ∃ ids, answer = .ok ids ∧ ids.length =
      ((e.load data).world.registry.records.filter (Registry.isDetachedPaused graph)).length := by
  have hknown : (e.load data).graphs.contains graph = true := by
    rw [graphs_load]
    exact hg
  -- Records from a save belong to no instance.
  have hnone : ∀ r ∈ (e.load data).world.registry.records.filter
      (fun r => r.graph = graph && r.isPaused), r.playback = none := by
    intro r hr
    have hmem := List.mem_of_mem_filter hr
    rw [registry_load] at hmem
    exact (Registry.settled_of_mem_load hmem).playback
  rcases resumePaused_cases h with ⟨error, -, hnow⟩ | ⟨e₁, ids, rfl, hnow, -⟩
  · -- The graph is known, so the call is not refused.
    rw [resumePausedNow_of_contains hknown] at hnow
    simp [Option.bind_eq_some_iff] at hnow
  · rcases resumePausedNow_cases hnow with ⟨error, herror, -⟩ | ⟨e₂, first, more, h₁, h₂, hids⟩
    · simp at herror
    · -- So there is nothing to be done for instances, and all ids are those of new ones.
      rw [resumeAttached_of_detached hnone] at h₁
      obtain ⟨rfl, rfl⟩ := Prod.mk.inj (Option.some.inj h₁)
      obtain rfl := Except.ok.inj hids
      exact ⟨_, rfl, length_resumeDetached hknown rfl h₂⟩

/-! ### Nothing that can be resumed is lost -/

/-- The paused records of a graph, blanks around its name aside. -/
def pausedOf (e : Engine β) (graph : String) : List Record :=
  e.world.registry.records.filter fun r => r.isPaused && Text.trim r.graph = graph

/-- What a save and a load make of the records between two operations. -/
theorem records_load_save {allowed : Operation β → Prop} (h : Reachable allowed e)
    (hwords : ∀ r ∈ e.world.registry.records, r.HasWords) :
    (e.load e.save).world.registry.records =
      (e.world.registry.records.filter fun r => !r.running && r.isNamed).map (·.restored) := by
  have hplain := plain_of_reachable h
  have htidy := tidy_of_reachable h
  have hstorable : e.world.registry.Storable := fun r hr => ⟨hwords r hr, hplain r hr⟩
  rw [registry_load, Engine.save, Registry.load_save hstorable]
  refine congrArg (List.map _) (List.filter_congr fun r hr => ?_)
  rw [Record.comesBack, htidy r hr, Bool.and_true]

/-- Between two operations, a save and a load leave the records that do not run and whose graph is
more than blanks, in their order; gone are the instances, the blanks around graphs and the names of
conversations that are empty. So a paused run can still be found under its graph, and if the graph
is known a resume of it resumes all its runs. -/
theorem load_save_of_reachable (h : Reachable (fun _ => True) e)
    (hwords : ∀ r ∈ e.world.registry.records, r.HasWords) :
    (e.load e.save).world.registry.records =
        (e.world.registry.records.filter fun r => !r.running && r.isNamed).map (·.restored) ∧
      ∀ graph, graph ≠ "" →
        (e.load e.save).world.registry.records.filter (Registry.isDetachedPaused graph) =
          (e.pausedOf graph).map (·.restored) ∧
        (e.graphs.contains graph = true → ∀ fuel rerun e' answer,
          (e.load e.save).resumePaused fuel graph rerun = some (e', answer) →
          ∃ ids, answer = .ok ids ∧ ids.length = (e.pausedOf graph).length) := by
  have hrecords := records_load_save h hwords
  have hpaused : ∀ graph, graph ≠ "" →
      (e.load e.save).world.registry.records.filter (Registry.isDetachedPaused graph) =
        (e.pausedOf graph).map (·.restored) := by
    intro graph hgraph
    rw [hrecords, List.filter_map, List.filter_filter, pausedOf]
    refine congrArg (List.map _) (List.filter_congr fun r _ => ?_)
    -- A record that is paused does not run, and one of this graph has a name.
    have hname : Text.trim r.graph = graph → r.isNamed = true := by
      rintro rfl
      simpa [Record.isNamed] using hgraph
    by_cases hr : Text.trim r.graph = graph
    · have hnamed := hname hr
      cases hrun : r.running <;>
        simp [Registry.isDetachedPaused, Record.restored, Record.isPaused, hr, hrun, hnamed]
    · simp [Registry.isDetachedPaused, Record.restored, hr]
  refine ⟨hrecords, fun graph hgraph => ⟨hpaused graph hgraph, ?_⟩⟩
  intro hg fuel rerun e' answer hresume
  obtain ⟨ids, hids, hlength⟩ := length_resumePaused_load hg hresume
  rw [hpaused graph hgraph, List.length_map] at hlength
  exact ⟨ids, hids, hlength⟩

/-! ### Names that are not kept -/

/-- Two circles, with blanks around the name of one and nothing but a blank for the name of the
other. -/
def oddlyNamed : Engine Builtin :=
  ((ofKinds {} [echo]).register { circle with id := " circle " }).register { circle with id := " " }

/-- The record of a circle that has been triggered at its second node and then paused. -/
def pausedCircle (graph : String) (playback : Nat) (conversation : Option String) : Record :=
  { graph, playback := some playback, queued := true, resumePoints := [1], start := 1,
    conversation }

/-- Both circles are triggered, one of them with an empty name of a conversation, and paused. -/
theorem reachable_oddlyNamed : ∃ e : Engine Builtin, Reachable (fun _ => True) e ∧
    e.world.registry.records =
      [pausedCircle " circle " 0 (some ""), pausedCircle " " 1 none] := by
  have hruns : ∃ e₁ e₂ e₃ e₄ : Engine Builtin,
      oddlyNamed.perform 1 (.trigger " circle " { start := some 1, conversation := some "" }) =
        some e₁ ∧
      e₁.perform 1 (.trigger " " { start := some 1, conversation := none }) = some e₂ ∧
      e₂.perform 1 (.pause 0) = some e₃ ∧ e₃.perform 1 (.pause 1) = some e₄ ∧
      e₄.world.registry.records =
        [pausedCircle " circle " 0 (some ""), pausedCircle " " 1 none] :=
    ⟨_, _, _, _,
      perform_trigger (by decide) (by decide) rfl rfl
        ((Playback.play_of_ne_zero 1 _ true Nat.one_ne_zero (by decide)).trans rfl) rfl,
      perform_trigger (by decide) (by decide) rfl rfl
        ((Playback.play_of_ne_zero 1 _ true Nat.one_ne_zero (by decide)).trans rfl) rfl,
      rfl, rfl, rfl⟩
  obtain ⟨e₁, e₂, e₃, e₄, h₁, h₂, h₃, h₄, hrecords⟩ := hruns
  have hstart : Reachable (fun _ => True) oddlyNamed :=
    ((Reachable.start {} [echo]).register _ trivial).register _ trivial
  have hrunning := (hstart.perform trivial h₁).perform trivial h₂
  exact ⟨e₄, (hrunning.perform trivial h₃).perform trivial h₄, hrecords⟩

theorem hasWords_oddlyNamed {e : Engine Builtin} (h : e.world.registry.records =
    [pausedCircle " circle " 0 (some ""), pausedCircle " " 1 none]) :
    ∀ r ∈ e.world.registry.records, r.HasWords := by
  intro r hr
  rw [h] at hr
  simp only [List.mem_cons, List.not_mem_nil, or_false] at hr
  rcases hr with rfl | rfl
  · exact ⟨by decide, by decide⟩
  · exact ⟨by decide, by decide⟩

/-- The one circle is found under its name without blanks. -/
theorem load_save_oddlyNamed : ∃ e : Engine Builtin, Reachable (fun _ => True) e ∧
    (∀ r ∈ e.world.registry.records, r.HasWords) ∧ (e.pausedOf "circle").length = 1 ∧
    (e.load e.save).world.registry.records.filter (Registry.isDetachedPaused "circle") =
      (e.pausedOf "circle").map (·.restored) := by
  obtain ⟨e, hreachable, hrecords⟩ := reachable_oddlyNamed
  have hwords := hasWords_oddlyNamed hrecords
  have hone : (e.pausedOf "circle").length = 1 := by
    rw [pausedOf, hrecords]
    decide
  obtain ⟨-, hpaused⟩ := load_save_of_reachable hreachable hwords
  exact ⟨e, hreachable, hwords, hone, (hpaused "circle" (by decide)).1⟩

/-- Neither circle is found under its own name, and no record is what it was: blanks around a name,
records without another name and empty names of conversations are not kept. -/
theorem load_save_changes_oddlyNamed : ∃ e : Engine Builtin, Reachable (fun _ => True) e ∧
    (∀ r ∈ e.world.registry.records, r.isPaused = true) ∧
    (e.load e.save).world.registry.records ≠
      (e.world.registry.records.filter (!·.running)).map (fun r => { r with playback := none }) ∧
    ∀ r ∈ e.world.registry.records,
      (e.load e.save).world.registry.detachedPaused? r.graph = none := by
  obtain ⟨e, hreachable, hrecords⟩ := reachable_oddlyNamed
  have hloaded := records_load_save hreachable (hasWords_oddlyNamed hrecords)
  refine ⟨e, hreachable, ?_, ?_, ?_⟩
  · rw [hrecords]
    decide
  · rw [hloaded, hrecords]
    decide
  · simp only [Registry.detachedPaused?, hloaded, hrecords]
    decide

end Engine

end Cutscene
