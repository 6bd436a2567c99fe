import Cutscene.Engine.Operations
import Cutscene.Proofs.Playback.Operation

/-!
# An operation of an engine, part by part

An operation that returns has come through smaller ones, one after the other. There is one lemma for
each operation that says which: `spawn_cases` and `begin_cases` for a graph that is started,
`onInstance_cases` for what is asked of a single instance, `trigger_cases`, `resumePaused_cases`,
`kill_cases` and `killGraph_cases` for graphs and their instances, `skipRequested_cases` for what is
in the skip queue, `skipAll_cases` and `tick_cases` for all of them, of which a tick updates one
after the other (`updateAll_cons`). Runs from a save are resumed without a refusal, as long as their
graph is known (`resumeRestored_eq`). A flush is taken apart command by command
(`flush_of_takeUp`), up to the last one or to the end of the budget.
-/

namespace Cutscene

variable {β : Type}

namespace Trigger

/-- An instance that has been told the parameters and the conversation of a trigger. -/
def brief (trigger : Trigger) (p : Playback β) : Playback β :=
  { p with
    parameters := (Engine.override p.parameters trigger.parameters).1
    conversation := trigger.conversation.or p.conversation }

/-- What a trigger has an instance do. -/
def operation (trigger : Trigger) (p : Playback β) : Playback.Operation :=
  if trigger.skip then .skip (trigger.start.getD p.defaultStart)
  else .play (trigger.start.getD p.defaultStart) trigger.queue

theorem operation_isReset (trigger : Trigger) (p : Playback β) :
    (trigger.operation p).isReset = false := by
  unfold operation
  split_ifs <;> rfl

theorem operation_isUpdate (trigger : Trigger) (p : Playback β) :
    (trigger.operation p).isUpdate = false := by
  unfold operation
  split_ifs <;> rfl

end Trigger

/-- An instance that has been told the conversation of a request. -/
def SkipRequest.brief (request : SkipRequest) (p : Playback β) : Playback β :=
  { p with conversation := request.conversation.or p.conversation }

namespace Engine

/-- Time has passed, but no instance has been updated yet. -/
def advanced (e : Engine β) (nanoseconds : Nat) : Engine β :=
  { e with world := { e.world with clock := e.world.clock.advance nanoseconds } }

/-- Other commands wait to be applied. -/
def withCommands (e : Engine β) (commands : List Command) : Engine β :=
  { e with world := { e.world with commands } }

/-- The commands that are left when the budget is used up are dropped, those of a batch too. -/
def cutOff (e : Engine β) (batch : List Command) : Engine β :=
  if batch ++ e.world.commands = [] then e else (e.withCommands []).notice .budgetExhausted

/-- The graph gets an instance of its own: it may have several, or has none. -/
def NeedsInstance (e : Engine β) (edition : Edition) (graph : String) : Prop :=
  edition.graph.settings.multiInstance = true ∨ ∀ p ∈ e.instances, p.graph ≠ graph

/-- The graph is known and has one instance at most. -/
def IsSingle (e : Engine β) (graph : String) : Prop :=
  ∃ edition, e.graphs.get? graph = some edition ∧ edition.graph.settings.multiInstance = false

/-- An instance is there already, or it is made of nodes from the shelf or of new ones. Only the
nodes of a graph with several instances are on the shelf afterwards. -/
theorem spawn_cases {e e' : Engine β} {graph : String} {id : Nat}
    (h : e.spawn graph = .ok (e', id)) :
    (e' = e ∧ e.IsSingle graph ∧ ∃ p ∈ e.instances, p.graph = graph ∧ p.id = id) ∨
    ∃ edition nodes notices parked, e.graphs.get? graph = some edition ∧
      e.NeedsInstance edition graph ∧
      (e.parked.get? graph = some nodes ∧ notices = [] ∨
        e.parked.get? graph = none ∧ (nodes, notices) = e.prepare edition.graph) ∧
      (∀ key, parked.get? key =
        if key = graph then if edition.graph.settings.multiInstance then some nodes else none
        else e.parked.get? key) ∧
      (e', id) = (({ e with parked } : Engine β).noticeAll notices).create edition nodes := by
  unfold spawn at h
  cases hg : e.graphs.get? graph with
  | none => simp [hg] at h
  | some edition =>
    simp only [hg] at h
    split_ifs at h with hm
    · -- Graphs with several instances keep their nodes on the shelf and copy them.
      have hneeds : e.NeedsInstance edition graph := Or.inl hm
      cases hparked : e.parked.get? graph with
      | some nodes =>
        simp only [hparked, Except.ok.injEq] at h
        refine Or.inr ⟨edition, nodes, [], e.parked, rfl, hneeds, Or.inl ⟨rfl, rfl⟩,
          fun key => ?_, h.symm⟩
        rw [if_pos hm]
        split_ifs with hkey
        · rw [hkey, hparked]
        · rfl
      | none =>
        simp only [hparked, Except.ok.injEq] at h
        refine Or.inr ⟨edition, (e.prepare edition.graph).1, (e.prepare edition.graph).2, _, rfl,
          hneeds, Or.inr ⟨rfl, rfl⟩, fun key => ?_, h.symm⟩
        rw [if_pos hm, Table.get?_insert]
    · -- The others take their nodes off the shelf.
      cases hfind : e.instances.find? (·.graph = graph) with
      | some p =>
        simp only [hfind, Except.ok.injEq, Prod.mk.injEq] at h
        have hgraph : p.graph = graph := by simpa using List.find?_some hfind
        exact Or.inl ⟨h.1.symm, ⟨edition, hg, by simpa using hm⟩, p,
          List.mem_of_find?_eq_some hfind, hgraph, h.2⟩
      | none =>
        -- An instance of its own is needed where none was found.
        have hneeds : e.NeedsInstance edition graph := by
          refine Or.inr fun p hp => ?_
          simpa using List.find?_eq_none.mp hfind p hp
        cases hparked : e.parked.get? graph with
        | some nodes =>
          simp only [hfind, hparked, Except.ok.injEq] at h
          refine Or.inr ⟨edition, nodes, [], e.parked.erase graph, rfl, hneeds,
            Or.inl ⟨rfl, rfl⟩, fun key => ?_, h.symm⟩
          rw [if_neg hm, Table.get?_erase]
        | none =>
          simp only [hfind, hparked, Except.ok.injEq] at h
          refine Or.inr ⟨edition, (e.prepare edition.graph).1, (e.prepare edition.graph).2,
            e.parked, rfl, hneeds, Or.inr ⟨rfl, rfl⟩, fun key => ?_, h.symm⟩
          rw [if_neg hm]
          split_ifs with hkey
          · rw [hkey, hparked]
          · rfl

theorem exists_instance? {e : Engine β} {p : Playback β} (hp : p ∈ e.instances) :
    ∃ q, e.instance? p.id = some q := by
  -- Nothing is known of the ids here, so what is found may be another instance with the same id.
  have hfound : (e.instances.find? (·.id = p.id)).isSome :=
    List.find?_isSome.mpr ⟨p, hp, by simp⟩
  exact Option.isSome_iff_exists.mp hfound

theorem exists_instance?_create (e : Engine β) (edition : Edition) (nodes : List (Node β)) :
    ∃ q, (e.create edition nodes).1.instance? (e.create edition nodes).2 = some q := by
  have hfound : ((e.create edition nodes).1.instances.find?
      (·.id = (e.create edition nodes).2)).isSome :=
    List.find?_isSome.mpr ⟨_, List.mem_append_right _ List.mem_cons_self, by simp [create]⟩
  exact Option.isSome_iff_exists.mp hfound

/-- What a graph gets is one of the instances. -/
theorem exists_instance?_of_spawn {e e' : Engine β} {graph : String} {id : Nat}
    (h : e.spawn graph = .ok (e', id)) : ∃ p, e'.instance? id = some p := by
  rcases spawn_cases h with
    ⟨rfl, -, p, hp, -, rfl⟩ | ⟨edition, nodes, notices, parked, -, -, -, -, heq⟩
  · exact exists_instance? hp
  · obtain ⟨rfl, rfl⟩ := Prod.mk.inj heq
    exact exists_instance?_create _ edition nodes

theorem registry_spawn {e e' : Engine β} {graph : String} {id : Nat}
    (h : e.spawn graph = .ok (e', id)) : e'.world.registry = e.world.registry := by
  rcases spawn_cases h with ⟨rfl, -⟩ | ⟨edition, nodes, notices, parked, -, -, -, -, heq⟩
  · rfl
  · obtain rfl : e' = _ := congrArg Prod.fst heq
    exact (e.world.quiet_noticeAll notices).registry

theorem graphs_modifyInstance (e : Engine β) (id : Nat)
    (f : Playback β → Playback β × List Notice) : (e.modifyInstance id f).graphs = e.graphs := by
  unfold modifyInstance
  cases e.instance? id <;> rfl

/-- A graph that is known gets an instance. -/
theorem exists_spawn {e : Engine β} {graph : String} (h : e.graphs.contains graph = true) :
    ∃ e₁ id p, e.spawn graph = .ok (e₁, id) ∧ e₁.instance? id = some p ∧
      e₁.graphs = e.graphs := by
  obtain ⟨edition, hedition⟩ := Option.isSome_iff_exists.mp h
  cases hspawn : e.spawn graph with
  | error error =>
    unfold spawn at hspawn
    simp only [hedition] at hspawn
    -- None of the ways to get nodes fails.
    split_ifs at hspawn
    · cases hparked : e.parked.get? graph <;> simp [hparked] at hspawn
    · cases hfind : e.instances.find? (·.graph = graph) with
      | some p => simp [hfind] at hspawn
      | none => cases hparked : e.parked.get? graph <;> simp [hfind, hparked] at hspawn
  | ok answer =>
    obtain ⟨e₁, id⟩ := answer
    obtain ⟨p, hp⟩ := exists_instance?_of_spawn hspawn
    refine ⟨e₁, id, p, rfl, hp, ?_⟩
    rcases spawn_cases hspawn with
      ⟨rfl, -⟩ | ⟨edition, nodes, notices, parked, -, -, -, -, hcreated⟩
    · rfl
    · rw [show e₁ = _ from congrArg Prod.fst hcreated]
      rfl

variable [Behaviour β] {fuel : Nat} {e e₁ e' : Engine β}

/-! ### Parts of operations -/

/-- A graph is refused, or it gets an instance and the instance gets going. -/
theorem begin_cases {graph : String} {trigger : Trigger} {answer : Except EngineError Nat}
    (h : e.begin fuel graph trigger = some (e', answer)) :
    (∃ error, answer = .error error ∧
      (e' = e ∨ e' = e.notice .graphDisabled)) ∨
    ∃ e₁ id p r, answer = .ok id ∧ e.spawn graph = .ok (e₁, id) ∧ e₁.instance? id = some p ∧
      (trigger.brief p).perform fuel
        (e₁.world.noticeAll (override p.parameters trigger.parameters).2)
        (trigger.operation p) = some r ∧ e' = e₁.put r := by
  unfold begin at h
  by_cases hg : (!e.graphs.contains graph) = true
  · rw [if_pos hg] at h
    obtain ⟨rfl, rfl⟩ := Prod.mk.inj (Option.some.inj h)
    -- The graph is not known.
    exact Or.inl ⟨_, rfl, Or.inl rfl⟩
  rw [if_neg hg] at h
  by_cases hd : (!e.isEnabled graph) = true
  · rw [if_pos hd] at h
    obtain ⟨rfl, rfl⟩ := Prod.mk.inj (Option.some.inj h)
    -- The graph is disabled, and a notice says so.
    exact Or.inl ⟨_, rfl, Or.inr rfl⟩
  rw [if_neg hd] at h
  cases hs : e.spawn graph with
  | error error =>
    simp only [hs] at h
    obtain ⟨rfl, rfl⟩ := Prod.mk.inj (Option.some.inj h)
    -- The graph has been known above, so this does not happen, but it would change nothing.
    exact Or.inl ⟨_, rfl, Or.inl rfl⟩
  | ok s =>
    obtain ⟨e₁, id⟩ := s
    obtain ⟨p, hp⟩ := exists_instance?_of_spawn hs
    simp only [hs, hp, Option.map_eq_some_iff, Prod.mk.injEq] at h
    obtain ⟨r, hr, rfl, rfl⟩ := h
    refine Or.inr ⟨e₁, id, p, r, rfl, rfl, hp, ?_, rfl⟩
    -- A trigger has the instance skip or play.
    unfold Trigger.operation
    cases hskip : trigger.skip with
    | true =>
      simp only [hskip, if_true] at hr ⊢
      exact hr
    | false =>
      simp only [hskip, Bool.false_eq_true, if_false] at hr ⊢
      exact hr

/-- A graph that can be triggered plays from a node. -/
theorem begin_of_play {e₁ : Engine β} {graph : String} {id start : Nat} {p : Playback β}
    {queue : Bool} {conversation : Option String} {r : Playback β × World β}
    (hg : e.graphs.contains graph = true) (hd : e.isEnabled graph = true)
    (hs : e.spawn graph = .ok (e₁, id)) (hp : e₁.instance? id = some p)
    (hr : ({ p with conversation := conversation.or p.conversation } : Playback β).play fuel
      e₁.world start queue = some r) :
    e.begin fuel graph { start := some start, queue, conversation } = some (e₁.put r, .ok id) := by
  unfold begin
  -- The graph is neither unknown nor disabled.
  rw [if_neg (by simp [hg]), if_neg (by simp [hd])]
  simp only [hs, hp]
  simp only [override, World.noticeAll, List.foldl_nil, Option.getD_some]
  exact Option.map_eq_some_iff.mpr ⟨r, hr, rfl⟩

theorem graphs_resumeRecord {id : Nat} {r : Record} {rerun : Bool} {ids : List Nat}
    (h : e.resumeRecord fuel id r rerun = some (e', ids)) : e'.graphs = e.graphs := by
  unfold resumeRecord at h
  cases hp : e.instance? id with
  | none =>
    simp only [hp, Option.some.injEq, Prod.mk.injEq] at h
    rw [h.1]
  | some p =>
    simp only [hp, Option.map_eq_some_iff, Prod.mk.injEq] at h
    obtain ⟨s, -, rfl, -⟩ := h
    rfl

theorem graphs_resumeAttached {rerun : Bool} {records : List Record} {ids : List Nat}
    (h : e.resumeAttached fuel rerun records = some (e', ids)) : e'.graphs = e.graphs := by
  induction records generalizing e ids with
  | nil =>
    obtain ⟨rfl, -⟩ := Prod.mk.inj (Option.some.inj h)
    rfl
  | cons r rest ih =>
    rw [resumeAttached] at h
    cases hid : r.playback with
    | none =>
      simp only [hid] at h
      exact ih h
    | some id =>
      simp only [hid, Option.bind_eq_bind, Option.bind_eq_some_iff, Prod.exists, Option.pure_def,
        Option.some.injEq, Prod.mk.injEq] at h
      obtain ⟨e₁, _, h₁, e₂, _, h₂, rfl, -⟩ := h
      exact (ih h₂).trans (graphs_resumeRecord h₁)

/-- Resumes the first `count` records of a graph that come from a save; where one gets no instance,
it ends there. -/
def resumeDetached (fuel : Nat) (rerun : Bool) (graph : String) :
    Nat → Engine β → Option (Engine β × List Nat)
  | 0, e => some (e, [])
  | count + 1, e =>
    match e.world.registry.detachedPaused? graph with
    | none => some (e, [])
    | some r =>
      match (e.withRegistry (e.world.registry.dropDetachedPaused graph)).spawn graph with
      | .error _ => some (e, [])
      | .ok (e, id) => do
        let e := e.modifyInstance id fun p => ({ p with conversation := r.conversation }, [])
        let (e, ids) ← e.resumeRecord fuel id r rerun
        let (e, more) ← resumeDetached fuel rerun graph count e
        return (e, ids ++ more)

/-- Every record of a graph that is known gets an instance: nothing is refused on the way. -/
theorem resumeRestored_eq {rerun : Bool} {graph : String} (hg : e.graphs.contains graph = true)
    (count : Nat) : resumeRestored fuel rerun graph count e =
      (resumeDetached fuel rerun graph count e).map fun s => (s.1, .ok s.2) := by
  induction count generalizing e with
  | zero => rfl
  | succ count ih =>
    rw [resumeRestored, resumeDetached]
    cases hr : e.world.registry.detachedPaused? graph with
    | none => rfl
    | some r =>
      have hdropped : (e.withRegistry (e.world.registry.dropDetachedPaused graph)).graphs.contains
          graph = true := hg
      obtain ⟨e₁, id, p, hs, -, hgraphs⟩ := exists_spawn hdropped
      simp only [hs]
      cases hrecord : (e₁.modifyInstance id fun p =>
          ({ p with conversation := r.conversation }, [])).resumeRecord fuel id r rerun with
      | none => rfl
      | some s =>
        -- Resuming a record registers no graph and forgets none.
        have hs₁ : s.1.graphs = e.graphs := by
          have hsame : s.1.graphs = _ := graphs_resumeRecord hrecord
          rw [hsame, graphs_modifyInstance, hgraphs]
          rfl
        have hknown : s.1.graphs.contains graph = true := by
          rw [hs₁]
          exact hg
        simp only [Option.bind_eq_bind, Option.bind_some, ih hknown]
        cases resumeDetached fuel rerun graph count s.1 <;> rfl

/-- The paused runs of a graph that is known are resumed, those first that belong to instances. -/
theorem resumePausedNow_of_contains {graph : String} (hg : e.graphs.contains graph = true)
    (rerun : Bool) : e.resumePausedNow fuel graph rerun =
      (e.resumeAttached fuel rerun
        (e.world.registry.records.filter fun r => r.graph = graph && r.isPaused)).bind fun s =>
          (resumeDetached fuel rerun graph
            (s.1.world.registry.records.filter (Registry.isDetachedPaused graph)).length s.1).map
              fun t => (t.1, .ok (s.2 ++ t.2)) := by
  unfold resumePausedNow
  rw [if_neg (by simp [hg])]
  refine Option.bind_congr fun s hs => ?_
  -- What instances resume first registers no graph.
  have hknown : s.1.graphs.contains graph = true := by
    have hsame : s.1.graphs = e.graphs := graphs_resumeAttached hs
    rw [hsame]
    exact hg
  simp only [resumeRestored_eq hknown]
  cases resumeDetached fuel rerun graph _ s.1 <;> rfl

theorem resumePausedNow_cases {graph : String} {rerun : Bool}
    {answer : Except EngineError (List Nat)}
    (h : e.resumePausedNow fuel graph rerun = some (e', answer)) :
    (∃ error, answer = .error error ∧ e' = e) ∨
    ∃ e₁ ids more,
      e.resumeAttached fuel rerun
        (e.world.registry.records.filter fun r => r.graph = graph && r.isPaused) =
          some (e₁, ids) ∧
      resumeDetached fuel rerun graph
        (e₁.world.registry.records.filter (Registry.isDetachedPaused graph)).length e₁ =
          some (e', more) ∧
      answer = .ok (ids ++ more) := by
  by_cases hg : e.graphs.contains graph = true
  · rw [resumePausedNow_of_contains hg] at h
    simp only [Option.bind_eq_some_iff, Option.map_eq_some_iff, Prod.exists, Prod.mk.injEq] at h
    obtain ⟨e₁, ids, h₁, e₂, more, h₂, rfl, rfl⟩ := h
    exact Or.inr ⟨e₁, ids, more, h₁, h₂, rfl⟩
  · -- A graph that is not known is refused before anything happens.
    unfold resumePausedNow at h
    rw [if_pos (by simp [hg])] at h
    obtain ⟨rfl, rfl⟩ := Prod.mk.inj (Option.some.inj h)
    exact Or.inl ⟨_, rfl, rfl⟩

omit [Behaviour β] in
/-- The commands that have their turn next stand before those that have not been taken up. -/
theorem takeUp_order (e : Engine β) (batch : List Command) :
    (e.takeUp batch).2 ++ (e.takeUp batch).1.world.commands = batch ++ e.world.commands := by
  cases batch with
  | nil => exact List.append_nil _
  | cons => rfl

omit [Behaviour β] in
theorem takeUp_cases (e : Engine β) (batch : List Command) :
    batch ++ e.world.commands = [] ∨
      ∃ e₁ command rest, e.takeUp batch = (e₁, command :: rest) := by
  cases batch with
  | cons command rest => exact Or.inr ⟨e, command, rest, rfl⟩
  | nil =>
    cases hc : e.world.commands with
    | nil => exact Or.inl rfl
    | cons command rest =>
      refine Or.inr ⟨e.withCommands [], command, rest, ?_⟩
      rw [takeUp, hc]
      rfl

theorem flush_zero (fuel : Nat) (batch : List Command) (e : Engine β) :
    flush fuel 0 batch e = some (e.cutOff batch) := by
  rw [flush, cutOff]
  simp only [Bool.and_eq_true, List.isEmpty_iff, List.append_eq_nil_iff]
  split_ifs <;> rfl

theorem flush_of_nil {budget : Nat} {batch : List Command} (h : batch ++ e.world.commands = []) :
    flush fuel budget batch e = some e := by
  obtain ⟨rfl, hc⟩ := List.append_eq_nil_iff.mp h
  cases budget with
  | zero => rw [flush_zero, cutOff, if_pos h]
  | succ budget =>
    -- No command waits, so to take up none changes nothing.
    have hsame : e.withCommands [] = e := by
      rw [← hc]
      rfl
    rw [flush, takeUp, hc]
    exact congrArg some hsame

theorem flush_of_takeUp {budget : Nat} {batch rest : List Command} {command : Command}
    (h : e.takeUp batch = (e₁, command :: rest)) :
    flush fuel (budget + 1) batch e =
      (e₁.apply fuel command).bind (flush fuel budget rest) := by
  rw [flush, h]
  rfl

theorem flushAll_of_quiet (h : e.world.commands = []) : e.flushAll fuel = some e := by
  rw [flushAll]
  exact flush_of_nil h

theorem conclude_of_quiet (h : e.world.commands = []) : e.conclude fuel = some e.collect := by
  rw [conclude, flushAll_of_quiet h, Option.map_some]

/-- Commands are applied, then what is of no further use is dropped. -/
theorem conclude_cases (h : e.conclude fuel = some e') :
    ∃ e₁, e.flushAll fuel = some e₁ ∧ e' = e₁.collect := by
  obtain ⟨e₁, h₁, rfl⟩ := Option.map_eq_some_iff.mp h
  exact ⟨e₁, h₁, rfl⟩

/-! ### Operations -/

theorem trigger_cases {graph : String} {trigger : Trigger} {answer : Except EngineError Nat}
    (h : e.trigger fuel graph trigger = some (e', answer)) :
    (∃ error, answer = .error error ∧ e.begin fuel graph trigger = some (e', .error error)) ∨
    ∃ e₁ id, answer = .ok id ∧ e.begin fuel graph trigger = some (e₁, .ok id) ∧
      e₁.conclude fuel = some e' := by
  simp only [Engine.trigger, Option.bind_eq_bind, Option.bind_eq_some_iff, Prod.exists] at h
  obtain ⟨e₁, error | id, h₁, h⟩ := h
  · -- A graph that is refused applies no commands.
    obtain ⟨rfl, rfl⟩ := Prod.mk.inj (Option.some.inj h)
    exact Or.inl ⟨error, rfl, h₁⟩
  · obtain ⟨e₂, h₂, h⟩ := Option.bind_eq_some_iff.mp h
    obtain ⟨rfl, rfl⟩ := Prod.mk.inj (Option.some.inj h)
    exact Or.inr ⟨e₁, id, rfl, h₁, h₂⟩

theorem resumePaused_cases {graph : String} {rerun : Bool}
    {answer : Except EngineError (List Nat)}
    (h : e.resumePaused fuel graph rerun = some (e', answer)) :
    (∃ error, answer = .error error ∧
      e.resumePausedNow fuel graph rerun = some (e', .error error)) ∨
    ∃ e₁ ids, answer = .ok ids ∧ e.resumePausedNow fuel graph rerun = some (e₁, .ok ids) ∧
      e₁.conclude fuel = some e' := by
  simp only [resumePaused, Option.bind_eq_bind, Option.bind_eq_some_iff, Prod.exists] at h
  obtain ⟨e₁, error | ids, h₁, h⟩ := h
  · obtain ⟨rfl, rfl⟩ := Prod.mk.inj (Option.some.inj h)
    exact Or.inl ⟨error, rfl, h₁⟩
  · obtain ⟨e₂, h₂, h⟩ := Option.bind_eq_some_iff.mp h
    obtain ⟨rfl, rfl⟩ := Prod.mk.inj (Option.some.inj h)
    exact Or.inr ⟨e₁, ids, rfl, h₁, h₂⟩

theorem onInstance_cases {id : Nat} {f : Playback β → World β → Option (Playback β × World β)}
    {answer : Except EngineError Unit} (h : e.onInstance fuel id f = some (e', answer)) :
    e.instance? id = none ∧ e' = e ∧ answer = .error .unknownInstance ∨
    ∃ p r, e.instance? id = some p ∧ f p e.world = some r ∧
      (e.put r).conclude fuel = some e' ∧ answer = .ok () := by
  unfold onInstance at h
  cases hp : e.instance? id with
  | none =>
    simp only [hp] at h
    obtain ⟨rfl, rfl⟩ := Prod.mk.inj (Option.some.inj h)
    exact Or.inl ⟨rfl, rfl, rfl⟩
  | some p =>
    simp only [hp, Option.bind_eq_bind, Option.bind_eq_some_iff] at h
    obtain ⟨r, hr, e₁, h₁, h⟩ := h
    obtain ⟨rfl, rfl⟩ := Prod.mk.inj (Option.some.inj h)
    exact Or.inr ⟨p, r, rfl, hr, h₁, rfl⟩

theorem kill_cases {id : Nat} {answer : Except EngineError Unit}
    (h : e.kill fuel id = some (e', answer)) :
    e.instance? id = none ∧ e' = e ∧ answer = .error .unknownInstance ∨
    (e.killOne id).conclude fuel = some e' ∧ answer = .ok () := by
  unfold Engine.kill at h
  split_ifs at h with hnone
  · obtain ⟨rfl, rfl⟩ := Prod.mk.inj (Option.some.inj h)
    exact Or.inl ⟨Option.isNone_iff_eq_none.mp hnone, rfl, rfl⟩
  · obtain ⟨e₁, h₁, h⟩ := Option.bind_eq_some_iff.mp h
    obtain ⟨rfl, rfl⟩ := Prod.mk.inj (Option.some.inj h)
    exact Or.inr ⟨h₁, rfl⟩

theorem killGraph_cases {graph : String} {count : Nat}
    (h : e.killGraph fuel graph = some (e', count)) :
    (e.killGraphNow graph).1.conclude fuel = some e' ∧ count = (e.killGraphNow graph).2 := by
  obtain ⟨e₁, h₁, h⟩ := Option.bind_eq_some_iff.mp h
  obtain ⟨rfl, rfl⟩ := Prod.mk.inj (Option.some.inj h)
  exact ⟨h₁, rfl⟩

/-- A request is for an instance that is there, or its graph gets one, unless it is not known. -/
theorem skipRequested_cases {request : SkipRequest} (h : e.skipRequested fuel request = some e') :
    (∃ error, e.spawn request.graph = .error error ∧ e' = e.notice .cannotSkip) ∨
    ∃ e₁ id p r,
      (request.playback = some id ∧ e₁ = e ∨
        (∀ id, request.playback = some id → e.instance? id = none) ∧
          e.spawn request.graph = .ok (e₁, id)) ∧
      e₁.instance? id = some p ∧
      (request.brief p).skip fuel e₁.world request.start = some r ∧ e' = e₁.put r := by
  unfold skipRequested at h
  cases hid : request.playback.filter fun id => (e.instance? id).isSome with
  | some id =>
    obtain ⟨hplayback, hsome⟩ := Option.filter_eq_some_iff.mp hid
    obtain ⟨p, hp⟩ := Option.isSome_iff_exists.mp hsome
    simp only [hid, hp, Option.map_eq_some_iff] at h
    obtain ⟨r, hr, rfl⟩ := h
    exact Or.inr ⟨e, id, p, r, Or.inl ⟨hplayback, rfl⟩, hp, hr, rfl⟩
  | none =>
    -- Either the request is for no instance, or its instance has gone meanwhile.
    have hnone : ∀ id, request.playback = some id → e.instance? id = none := by
      intro id hplayback
      have hnot := Option.filter_eq_none_iff.mp hid id hplayback
      simpa using hnot
    cases hs : e.spawn request.graph with
    | error error =>
      simp only [hid, hs] at h
      obtain rfl := Option.some.inj h
      exact Or.inl ⟨error, rfl, rfl⟩
    | ok s =>
      obtain ⟨e₁, id⟩ := s
      obtain ⟨p, hp⟩ := exists_instance?_of_spawn hs
      simp only [hid, hs, hp, Option.map_eq_some_iff] at h
      obtain ⟨r, hr, rfl⟩ := h
      exact Or.inr ⟨e₁, id, p, r, Or.inr ⟨hnone, rfl⟩, hp, hr, rfl⟩

theorem skipAll_cases (h : e.skipAll fuel = some e') :
    ∃ e₁, (e.withRegistry e.world.registry.takeQueue.2).skipRequests fuel
        e.world.registry.takeQueue.1 = some e₁ ∧ e' = e₁.collect := by
  obtain ⟨e₁, h₁, h⟩ := Option.bind_eq_some_iff.mp h
  obtain rfl := Option.some.inj h
  exact ⟨e₁, h₁, rfl⟩

/-- An instance takes up what has become due, if it is still there. -/
def updateOne (fuel : Nat) (e : Engine β) (id : Nat) : Option (Engine β) :=
  match e.instance? id with
  | none => some e
  | some p => (p.update fuel e.world).map e.put

theorem updateOne_cases {id : Nat} (h : e.updateOne fuel id = some e') :
    e.instance? id = none ∧ e' = e ∨
      ∃ p r, e.instance? id = some p ∧ p.update fuel e.world = some r ∧ e' = e.put r := by
  unfold updateOne at h
  cases hp : e.instance? id with
  | none =>
    simp only [hp, Option.some.injEq] at h
    exact Or.inl ⟨rfl, h.symm⟩
  | some p =>
    simp only [hp, Option.map_eq_some_iff] at h
    obtain ⟨r, hr, rfl⟩ := h
    exact Or.inr ⟨p, r, rfl, hr, rfl⟩

theorem updateAll_cons (fuel : Nat) (e : Engine β) (id : Nat) (rest : List Nat) :
    e.updateAll fuel (id :: rest) =
      (e.updateOne fuel id).bind fun e₁ => (e₁.flushAll fuel).bind (·.updateAll fuel rest) := by
  rw [updateAll, updateOne]
  cases e.instance? id with
  | none => rfl
  | some p => rfl

/-- The instances of the front are updated first. -/
theorem updateAll_append (fuel : Nat) (e : Engine β) (before rest : List Nat) :
    e.updateAll fuel (before ++ rest) =
      (e.updateAll fuel before).bind (·.updateAll fuel rest) := by
  induction before generalizing e with
  | nil => rfl
  | cons id before ih =>
    -- The instance at the front is updated, and its commands are applied before the others.
    rw [List.cons_append, updateAll_cons, updateAll_cons]
    simp only [ih, Option.bind_assoc]

theorem tick_cases {nanoseconds : Nat} (h : e.tick fuel nanoseconds = some e') :
    ∃ e₁, (e.advanced nanoseconds).updateAll fuel (e.instances.map (·.id)) = some e₁ ∧
      e' = e₁.collect := by
  obtain ⟨e₁, h₁, h⟩ := Option.bind_eq_some_iff.mp h
  obtain rfl := Option.some.inj h
  exact ⟨e₁, h₁, rfl⟩

end Engine

end Cutscene
