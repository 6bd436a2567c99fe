import Cutscene.Proofs.Engine.Saving
import Cutscene.Proofs.Playback.Course

/-!
# What a triggered run begins with

A trigger may bring values for parameters and a conversation along. `ParameterSet.heed` says what a
set makes of the values (`override_eq`), and `Trigger.beginning` is the turn that a triggered run
begins with. By `trigger_begins` an instance that the trigger makes begins with what its graph
defines and the trigger says, whatever has happened before; an instance that is there already keeps
what the trigger says nothing about.
-/

namespace Cutscene

/-! ### Values for parameters -/

namespace Parameter

/-- A parameter takes the last of some values that is for its id and of its kind. -/
def heed (values : List (Int32 × Value)) (p : Parameter) : Parameter :=
  match values.reverse.find? fun v => v.1 = p.id && v.2.kind = p.kind with
  | some v => { p with value := v.2 }
  | none => p

variable {values : List (Int32 × Value)} {v : Int32 × Value} {p : Parameter}

@[simp]
theorem heed_nil (p : Parameter) : p.heed [] = p := rfl

/-- A value that is for another parameter, or of another kind, changes nothing. -/
theorem heed_cons_of_not (h : ¬(v.1 = p.id ∧ v.2.kind = p.kind)) :
    p.heed (v :: values) = p.heed values := by
  have hfind : [v].find? (fun v => v.1 = p.id && v.2.kind = p.kind) = none :=
    List.find?_cons_of_neg (by simpa using h)
  unfold heed
  rw [List.reverse_cons, List.find?_append, hfind, Option.or_none]

/-- A value that is taken may give way to a later one. -/
theorem heed_cons_of_kind (hid : v.1 = p.id) (hkind : v.2.kind = p.kind) :
    p.heed (v :: values) = ({ p with value := v.2 } : Parameter).heed values := by
  have hfind : [v].find? (fun v => v.1 = p.id && v.2.kind = p.kind) = some v :=
    List.find?_cons_of_pos (by simp [hid, hkind])
  have hkept : ({ p with value := v.2 } : Parameter).kind = p.kind := hkind
  unfold heed
  rw [List.reverse_cons, List.find?_append, hfind, hkept]
  cases values.reverse.find? fun v => v.1 = p.id && v.2.kind = p.kind <;> rfl

end Parameter

namespace ParameterSet

/-- Every parameter takes what it can from some values; of several with one id only the first
does. -/
def heed (values : List (Int32 × Parameter.Value)) : List Parameter → List Parameter
  | [] => []
  | p :: rest => p.heed values :: heed (values.filter (·.1 ≠ p.id)) rest

variable {id : Int32} {value : Parameter.Value} {values : List (Int32 × Parameter.Value)}
  {items : List Parameter}

@[simp]
theorem heed_nil (items : List Parameter) : heed [] items = items := by
  induction items with
  | nil => rfl
  | cons p rest ih => exact congrArg (p :: ·) ih

/-- A value that the parameter with its id does not take changes nothing. -/
theorem heed_cons_of_not_taken
    (h : ∀ p, items.find? (·.id = id) = some p → value.kind ≠ p.kind) :
    heed ((id, value) :: values) items = heed values items := by
  induction items generalizing values with
  | nil => rfl
  | cons p rest ih =>
    rw [heed, heed]
    by_cases hid : p.id = id
    · have hkind : value.kind ≠ p.kind := h p (List.find?_cons_of_pos (by simpa using hid))
      rw [List.filter_cons_of_neg (by simp [hid]), Parameter.heed_cons_of_not fun hv => hkind hv.2]
    · -- The first parameter with the id is further down.
      have hrest : ∀ q, rest.find? (·.id = id) = some q → value.kind ≠ q.kind := by
        intro q hq
        exact h q ((List.find?_cons_of_neg (by simpa using hid)).trans hq)
      rw [List.filter_cons_of_pos (by simpa using Ne.symm hid), ih hrest,
        Parameter.heed_cons_of_not fun hv => hid hv.1.symm]

/-- A value that is taken is put in its place before the others are considered. -/
theorem heed_cons_of_taken {q : Parameter} (hq : items.find? (·.id = id) = some q)
    (hkind : value.kind = q.kind) :
    heed ((id, value) :: values) items =
      heed values (replaceFirst id { q with value } items) := by
  induction items generalizing values with
  | nil => simp at hq
  | cons p rest ih =>
    rw [heed, replaceFirst]
    by_cases hid : p.id = id
    · rw [List.find?_cons_of_pos (by simpa using hid)] at hq
      obtain rfl := Option.some.inj hq
      rw [if_pos hid, heed, List.filter_cons_of_neg (by simp [hid]),
        Parameter.heed_cons_of_kind hid.symm hkind]
    · rw [List.find?_cons_of_neg (by simpa using hid)] at hq
      rw [if_neg hid, heed, List.filter_cons_of_pos (by simpa using Ne.symm hid), ih hq,
        Parameter.heed_cons_of_not fun hv => hid hv.1.symm]

end ParameterSet

/-- Setting values one after the other is to heed them all. -/
theorem Engine.override_eq (s : ParameterSet) (values : List (Int32 × Parameter.Value)) :
    (override s values).1.items = ParameterSet.heed values s.items := by
  induction values generalizing s with
  | nil => exact (ParameterSet.heed_nil s.items).symm
  | cons v rest ih =>
    obtain ⟨id, value⟩ := v
    rw [override, ParameterSet.set]
    cases hget : s.get? id with
    | none =>
      -- No parameter has this id, and the value is lost.
      have hnone : ∀ p, s.items.find? (·.id = id) = some p → value.kind ≠ p.kind := by
        intro p hp
        exact absurd (hget.symm.trans hp) (by simp)
      exact (ih s).trans (ParameterSet.heed_cons_of_not_taken hnone).symm
    | some q =>
      by_cases hkind : value.kind = q.kind
      · have hset : q.set? value = some { q with value } := if_pos hkind
        simp only [hset]
        exact (ih _).trans (ParameterSet.heed_cons_of_taken hget hkind).symm
      · have hset : q.set? value = none := if_neg hkind
        -- The parameter is of another kind, and the value is lost.
        have hother : ∀ p, s.items.find? (·.id = id) = some p → value.kind ≠ p.kind := by
          intro p hp
          obtain rfl := Option.some.inj (hget.symm.trans hp)
          exact hkind
        simp only [hset]
        exact (ih s).trans (ParameterSet.heed_cons_of_not_taken hother).symm

variable {β : Type}

/-! ### The instance that a trigger uses -/

/-- An instance as it is made of an edition, when nothing has happened to it yet. -/
structure Playback.IsMadeOf (p : Playback β) (edition : Edition) : Prop where
  number : p.edition = some edition.number
  parameters : p.parameters.items = edition.graph.parameters
  conversation : p.conversation = none
  phase : p.phase = .idle

namespace Engine

/-- The instance that is made is the one that its id stands for. -/
theorem instance?_create {e : Engine β} (h : ∀ p ∈ e.instances, p.id < e.nextId)
    (edition : Edition) (nodes : List (Node β)) :
    ∃ p, (e.create edition nodes).1.instance? e.nextId = some p ∧ p.IsMadeOf edition := by
  have hothers : e.instances.find? (·.id = e.nextId) = none := by
    refine List.find?_eq_none.mpr fun p hp => ?_
    simpa using Nat.ne_of_lt (h p hp)
  unfold instance? create
  rw [List.find?_append, hothers, Option.none_or, List.find?_cons_of_pos (by simp)]
  exact ⟨_, rfl, ⟨rfl, rfl, rfl, rfl⟩⟩

/-- Only its nodes tell an instance that is made from others of its edition. -/
theorem spawn_of_needsInstance {e : Engine β} (h : ∀ p ∈ e.instances, p.id < e.nextId)
    {graph : String} {edition : Edition} (hg : e.graphs.get? graph = some edition)
    (hn : e.NeedsInstance edition graph) :
    ∃ e₁ p, e.spawn graph = .ok (e₁, e.nextId) ∧ e₁.instance? e.nextId = some p ∧
      p.IsMadeOf edition := by
  have hcreate : ∃ nodes notices parked, e.spawn graph =
      .ok ((({ e with parked } : Engine β).noticeAll notices).create edition nodes) := by
    unfold spawn
    simp only [hg]
    by_cases hm : edition.graph.settings.multiInstance = true
    · -- Every trigger gets an instance of its own, and the shelf stays as it is.
      rw [if_pos hm]
      cases e.parked.get? graph with
      | some nodes => exact ⟨nodes, [], e.parked, rfl⟩
      | none => exact ⟨_, _, _, rfl⟩
    · -- No instance is there, and what is on the shelf is taken from it.
      have hnone : e.instances.find? (·.graph = graph) = none := by
        refine List.find?_eq_none.mpr fun p hp => ?_
        simpa using hn.resolve_left hm p hp
      rw [if_neg hm, hnone]
      cases e.parked.get? graph with
      | some nodes => exact ⟨nodes, [], e.parked.erase graph, rfl⟩
      | none => exact ⟨_, _, e.parked, rfl⟩
  obtain ⟨nodes, notices, parked, hs⟩ := hcreate
  obtain ⟨p, hp, hmade⟩ :=
    instance?_create (e := ({ e with parked } : Engine β).noticeAll notices) h edition nodes
  exact ⟨_, p, hs, hp, hmade⟩

theorem spawn_of_instance {e : Engine β} {graph : String} {edition : Edition} {p : Playback β}
    (hg : e.graphs.get? graph = some edition)
    (hm : edition.graph.settings.multiInstance = false)
    (hp : e.instances.find? (·.graph = graph) = some p) : e.spawn graph = .ok (e, p.id) := by
  unfold spawn
  simp only [hg, hm, hp, Bool.false_eq_true, if_false]

end Engine

/-! ### The turn that a trigger begins with -/

variable [Behaviour β]

/-- The turn that a triggered run begins with. -/
def Trigger.beginning (trigger : Trigger) (p : Playback β) (w : World β) : Turn β :=
  (trigger.brief p).beginning
    (w.noticeAll (Engine.override p.parameters trigger.parameters).2) (trigger.operation p)

omit [Behaviour β] in
/-- However a playback starts to play, it keeps its parameters and its conversation. -/
theorem Playback.playBeginning_keeps (p : Playback β) (w : World β) (start : Nat)
    (queue : Bool) :
    (p.playBeginning w start queue).playback.parameters = p.parameters ∧
      (p.playBeginning w start queue).playback.conversation = p.conversation := by
  have hstopped : (p.stopped w).1.parameters = p.parameters ∧
      (p.stopped w).1.conversation = p.conversation := by
    unfold stopped
    split_ifs <;> exact ⟨rfl, rfl⟩
  unfold playBeginning
  dsimp only
  split_ifs <;> exact hstopped

omit [Behaviour β] in
theorem Playback.skipBeginning_keeps (p : Playback β) (w : World β) (start : Nat) :
    (p.skipBeginning w start).playback.parameters = p.parameters ∧
      (p.skipBeginning w start).playback.conversation = p.conversation := by
  unfold skipBeginning skipTurn skippingFrom
  split_ifs <;> exact ⟨rfl, rfl⟩

/-- A triggered run begins with the parameters and the conversation that the instance has been told
of, and with those it had where the trigger says nothing. -/
theorem Trigger.beginning_playback (trigger : Trigger) (p : Playback β) (w : World β) :
    (trigger.beginning p w).playback.parameters.items =
        ParameterSet.heed trigger.parameters p.parameters.items ∧
      (trigger.beginning p w).playback.conversation =
        trigger.conversation.or p.conversation := by
  have hbrief : (trigger.brief p).parameters.items =
      ParameterSet.heed trigger.parameters p.parameters.items :=
    Engine.override_eq p.parameters trigger.parameters
  unfold beginning operation
  split_ifs
  · obtain ⟨hparameters, hconversation⟩ := (trigger.brief p).skipBeginning_keeps
      (w.noticeAll (Engine.override p.parameters trigger.parameters).2)
      (trigger.start.getD p.defaultStart)
    exact ⟨(congrArg ParameterSet.items hparameters).trans hbrief, hconversation⟩
  · obtain ⟨hparameters, hconversation⟩ := (trigger.brief p).playBeginning_keeps
      (w.noticeAll (Engine.override p.parameters trigger.parameters).2)
      (trigger.start.getD p.defaultStart) trigger.queue
    exact ⟨(congrArg ParameterSet.items hparameters).trans hbrief, hconversation⟩

namespace Engine

/-- A graph that is not refused begins with the turn of its trigger. -/
theorem begin_eq {e e₁ : Engine β} {graph : String} {edition : Edition} {id : Nat}
    {p : Playback β} (hg : e.graphs.get? graph = some edition) (hd : e.isEnabled graph = true)
    (hs : e.spawn graph = .ok (e₁, id)) (hp : e₁.instance? id = some p) (fuel : Nat)
    (trigger : Trigger) :
    e.begin fuel graph trigger =
      ((trigger.beginning p e₁.world).run fuel).map fun r => (e₁.put r, .ok id) := by
  have hknown : e.graphs.contains graph = true := by
    rw [Table.contains, hg]
    rfl
  unfold begin
  rw [if_neg (by simp [hknown]), if_neg (by simp [hd])]
  simp only [hs, hp]
  unfold Trigger.beginning Trigger.operation
  rw [← Playback.perform_eq]
  split_ifs <;> rfl

/-- What the trigger of a graph that is registered and enabled comes to: an instance is there or is
made, its turn begins, and after it commands are applied. The turn begins with the parameters of the
instance as far as they do not heed the values of the trigger, and with the conversation of the
trigger, or else the one that the instance was told before. So a run of an instance that is made for
it begins with what its edition defines and the trigger says, whatever has happened before; a run
of an instance that is there already also begins with what earlier triggers have left. -/
theorem trigger_begins {e : Engine β} (h : Reachable (fun _ => True) e) {graph : String}
    {edition : Edition} (hg : e.graphs.get? graph = some edition)
    (hd : e.isEnabled graph = true) (trigger : Trigger) :
    ∃ (e₁ : Engine β) (p : Playback β),
      (∀ fuel, e.trigger fuel graph trigger =
        ((trigger.beginning p e₁.world).run fuel).bind fun r =>
          ((e₁.put r).conclude fuel).map fun e' => (e', .ok p.id)) ∧
      (trigger.beginning p e₁.world).playback.parameters.items =
        ParameterSet.heed trigger.parameters p.parameters.items ∧
      (trigger.beginning p e₁.world).playback.conversation =
        trigger.conversation.or p.conversation ∧
      (e.NeedsInstance edition graph →
        e.instance? p.id = none ∧ p.IsMadeOf edition ∧
        (trigger.beginning p e₁.world).playback.parameters.items =
          ParameterSet.heed trigger.parameters edition.graph.parameters ∧
        (trigger.beginning p e₁.world).playback.conversation = trigger.conversation) ∧
      (¬e.NeedsInstance edition graph →
        e₁ = e ∧ e.instance? p.id = some p ∧ p.graph = graph) := by
  have hc := coherent_of_reachable h
  have hbegins : ∀ {e₁ : Engine β} {id : Nat} {p : Playback β}, e.spawn graph = .ok (e₁, id) →
      e₁.instance? id = some p → ∀ fuel, e.trigger fuel graph trigger =
        ((trigger.beginning p e₁.world).run fuel).bind fun r =>
          ((e₁.put r).conclude fuel).map fun e' => (e', .ok p.id) := by
    intro e₁ id p hs hp fuel
    rw [Engine.trigger, begin_eq hg hd hs hp, instance?_id hp]
    cases (trigger.beginning p e₁.world).run fuel with
    | none => rfl
    | some r => cases hr : (e₁.put r).conclude fuel <;> simp [hr]
  by_cases hn : e.NeedsInstance edition graph
  · obtain ⟨e₁, p, hs, hp, hmade⟩ := spawn_of_needsInstance hc.fresh hg hn
    obtain ⟨hparameters, hconversation⟩ := trigger.beginning_playback p e₁.world
    -- No id is given out twice.
    have hnew : e.instance? p.id = none := by
      refine List.find?_eq_none.mpr fun q hq => ?_
      rw [instance?_id hp]
      simpa using Nat.ne_of_lt (hc.fresh q hq)
    refine ⟨e₁, p, hbegins hs hp, hparameters, hconversation, fun _ => ⟨hnew, hmade, ?_, ?_⟩,
      fun hnot => absurd hn hnot⟩
    · rw [hparameters, hmade.parameters]
    · rw [hconversation, hmade.conversation, Option.or_none]
  · obtain ⟨hm, q, hq, hgraph⟩ : edition.graph.settings.multiInstance = false ∧
        ∃ q ∈ e.instances, q.graph = graph := by
      simpa [NeedsInstance] using hn
    have hsome : (e.instances.find? (·.graph = graph)).isSome :=
      List.find?_isSome.mpr ⟨q, hq, by simpa using hgraph⟩
    obtain ⟨p, hfind⟩ := Option.isSome_iff_exists.mp hsome
    have hp := hc.instance?_eq_some (List.mem_of_find?_eq_some hfind)
    have hs := spawn_of_instance hg hm hfind
    obtain ⟨hparameters, hconversation⟩ := trigger.beginning_playback p e.world
    exact ⟨e, p, hbegins hs hp, hparameters, hconversation, fun h => absurd h hn,
      fun _ => ⟨rfl, hp, by simpa using List.find?_some hfind⟩⟩

/-- The circle runs and has been told of a conversation. -/
theorem reachable_talkingCircle : ∃ e : Engine Builtin, Reachable (fun _ => True) e ∧
    e.graphs.get? "circle" = some ⟨0, circle⟩ ∧ e.isEnabled "circle" = true ∧
    ∃ p, e.instances = [p] ∧ p.graph = "circle" ∧ p.conversation = some "talk" := by
  have htrigger : ∃ e, ((ofKinds {} [echo]).register circle).perform 1
      (.trigger "circle" { start := some 1, conversation := some "talk" }) = some e ∧
      e.graphs.get? "circle" = some ⟨0, circle⟩ ∧ e.isEnabled "circle" = true ∧
      ∃ p, e.instances = [p] ∧ p.graph = "circle" ∧ p.conversation = some "talk" :=
    ⟨_, perform_trigger (by decide) (by decide) rfl rfl
      ((Playback.play_of_ne_zero 1 _ true Nat.one_ne_zero (by decide)).trans rfl) rfl,
      rfl, by decide, _, rfl, rfl, rfl⟩
  obtain ⟨e, he, htold⟩ := htrigger
  have hregistered : Reachable (fun _ => True) ((ofKinds {} [echo]).register circle) :=
    (Reachable.start {} [echo]).register circle trivial
  exact ⟨e, hregistered.perform trivial he, htold⟩

/-- Triggered once more without a conversation, the circle begins with the one from before. -/
theorem trigger_begins_talkingCircle : ∃ e : Engine Builtin, Reachable (fun _ => True) e ∧
    e.graphs.get? "circle" = some ⟨0, circle⟩ ∧ e.isEnabled "circle" = true ∧
    ∃ (e₁ : Engine Builtin) (p : Playback Builtin),
      (∀ fuel, e.trigger fuel "circle" {} =
        ((({} : Trigger).beginning p e₁.world).run fuel).bind fun r =>
          ((e₁.put r).conclude fuel).map fun e' => (e', .ok p.id)) ∧
      (({} : Trigger).beginning p e₁.world).playback.conversation = some "talk" := by
  obtain ⟨e, hreachable, hg, hd, q, hinstances, hgraph, htalk⟩ := reachable_talkingCircle
  obtain ⟨e₁, p, hbegins, -, hconversation, -, hreused⟩ := trigger_begins hreachable hg hd {}
  have hthere : ¬e.NeedsInstance ⟨0, circle⟩ "circle" := by
    rintro (hm | hnone)
    · exact absurd hm (by decide)
    · exact hnone q (by simp [hinstances]) hgraph
  obtain ⟨-, hp, -⟩ := hreused hthere
  have hpq : p = q := by
    have hmem := mem_instances_of_instance? hp
    simpa [hinstances] using hmem
  refine ⟨e, hreachable, hg, hd, e₁, p, hbegins, ?_⟩
  rw [hconversation, hpq, htalk]
  rfl

end Engine

end Cutscene
