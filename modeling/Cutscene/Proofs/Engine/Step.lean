import Cutscene.Proofs.Engine.Move

/-!
# An engine, step by step

A move says as much of a change as the registry and the instances have to agree on. A `Step` says
all of it: what has been spawned and from where, whose nodes are parked, which graph has been
registered, and that nothing but notices comes into the journal on the way. Steps are the parts of
which the operations of an engine are made, and each is a number of moves (`Step.moves`).
-/

namespace Cutscene

variable {β : Type}

/-- The world has gone on beside the playbacks: time, variables, commands and scene changes, and
what notices there are of it. -/
structure World.Aside (w w' : World β) : Prop where
  registry : w'.registry = w.registry
  config : w'.config = w.config
  journal : ∃ notices : List Notice, w'.journal = notices.map .notice ++ w.journal

theorem World.Aside.of_journal_eq {w w' : World β} (hr : w'.registry = w.registry)
    (hc : w'.config = w.config) (hj : w'.journal = w.journal) : w.Aside w' :=
  ⟨hr, hc, [], hj⟩

theorem World.aside_noticeAll (w : World β) (notices : List Notice) :
    w.Aside (w.noticeAll notices) := by
  rw [noticeAll_eq]
  exact ⟨rfl, rfl, notices.reverse, by rw [List.map_reverse]⟩

theorem World.Aside.eventsOf {w w' : World β} (h : w.Aside w') (id : Nat) :
    w'.eventsOf id = w.eventsOf id := by
  obtain ⟨notices, hj⟩ := h.journal
  have hnone : (notices.map (Entry.notice (β := β))).filterMap (Entry.kindFor? id) = [] := by
    refine List.filterMap_eq_nil_iff.mpr fun entry hentry => ?_
    obtain ⟨notice, -, rfl⟩ := List.mem_map.mp hentry
    rfl
  rw [World.eventsOf, World.eventsOf, hj, List.filterMap_append, hnone, List.nil_append]

namespace Engine

variable [Behaviour β]

/-- One of the parts of which operations are made. Resetting a record is not for a step. -/
inductive Step (e : Engine β) : Engine β → Prop
  /-- An instance does something. -/
  | act {p : Playback β} {fuel : Nat} {op : Playback.Operation} {r : Playback β × World β}
    (hp : e.instance? p.id = some p) (hop : op.isReset = false)
    (hr : p.perform fuel e.world op = some r) : Step e (e.put r)
  | told {p : Playback β} (hp : e.instance? p.id = some p) (parameters : ParameterSet)
    (conversation : Option String) :
    Step e (e.put ({ p with parameters, conversation }, e.world))
  | forgot {p : Playback β} (hp : e.instance? p.id = some p) :
    Step e (e.put (p.forgetChoices, e.world))
  | around {w : World β} (h : e.world.Aside w) : Step e { e with world := w }
  | trim {reg : Registry} (h : e.world.registry.Trim reg) : Step e (e.withRegistry reg)
  | allow {kinds : Table (NodeKind β)} {disabled : List String} :
    Step e { e with kinds, disabled }
  | register (graph : Graph) : Step e (e.register graph)
  | spawn {e' : Engine β} {graph : String} {id : Nat} (h : e.spawn graph = .ok (e', id)) :
    Step e e'
  | park {p : Playback β} (hp : p ∈ e.instances) (hrun : p.phase ≠ .running) : Step e (e.park p)
  | sweep {keep : Playback β → Bool} (h : ∀ p ∈ e.instances, keep p = false → e.IsIdle p) :
    Step e { e with instances := e.instances.filter keep }
  /-- The registry is made anew once there are no instances. -/
  | reload {reg : Registry} (h : e.instances = []) (hr : reg.IsAnew) :
    Step e (e.withRegistry reg)

/-- Any number of steps. -/
abbrev Steps (e e' : Engine β) : Prop := Relation.ReflTransGen Step e e'

/-- What every step keeps is kept by any number of them. -/
theorem Steps.invariant {I : Engine β → Prop} {e e' : Engine β} (h : Steps e e') (he : I e)
    (hstep : ∀ e e' : Engine β, I e → Step e e' → I e') : I e' := by
  induction h with
  | refl => exact he
  | tail _ hs ih => exact hstep _ _ ih hs

/-- Every step is a number of moves. -/
theorem Step.moves {e e' : Engine β} (h : Step e e') : Moves e e' := by
  have hshelf : ∀ graph nodes, e.parked.get? graph = some nodes → e.Available nodes :=
    fun graph _ hget => Or.inr (Or.inl ⟨graph, hget⟩)
  cases h with
  | act hp hop hr => exact (Move.act hp hop hr).moves
  | told hp parameters conversation =>
    exact (Move.adjust hp (Playback.adjusted _ parameters conversation)).moves
  | @forgot p hp =>
    have hadjusted : p.Adjusted p.forgetChoices := by
      refine ⟨rfl, rfl, rfl, rfl, rfl, rfl, rfl, ?_⟩
      simp [Playback.forgetChoices, Function.comp_def]
    exact (Move.adjust hp hadjusted).moves
  | around h => exact (Move.around h.registry h.eventsOf).moves
  | trim h => exact (Move.trim h).moves
  | allow => exact (Move.shelve hshelf).moves
  | register graph =>
    refine (Move.shelve fun key nodes hget => ?_).moves
    rw [Table.get?_erase] at hget
    split_ifs at hget
    exact hshelf key nodes hget
  | spawn h => exact moves_spawn h
  | park hp hrun => exact moves_park hp hrun
  | sweep h => exact (Move.sweep h).moves
  | reload h hr => exact (Move.reload h hr).moves

theorem Steps.moves {e e' : Engine β} (h : Steps e e') : Moves e e' := by
  induction h with
  | refl => exact .refl e
  | tail _ hs ih => exact ih.trans hs.moves

theorem Step.steps {e e' : Engine β} (h : Step e e') : Steps e e' := .single h

theorem steps_act {e : Engine β} {id fuel : Nat} {p : Playback β} (op : Playback.Operation)
    {r : Playback β × World β} (hp : e.instance? id = some p) (hop : op.isReset = false)
    (hr : p.perform fuel e.world op = some r) : Steps e (e.put r) :=
  (Step.act (instance?_self hp) hop hr).steps

/-- An instance is told something, and there is something to say about it. -/
theorem steps_told {e : Engine β} {id : Nat} {p : Playback β} (hp : e.instance? id = some p)
    (parameters : ParameterSet) (conversation : Option String) {w : World β}
    (hw : e.world.Aside w) : Steps e (e.put ({ p with parameters, conversation }, w)) := by
  have htold := (Step.told (instance?_self hp) parameters conversation).steps
  exact htold.tail (.around hw)

/-- An instance is told something and then does something. -/
theorem steps_told_act {e : Engine β} {id fuel : Nat} {p : Playback β} (op : Playback.Operation)
    {r : Playback β × World β} (hp : e.instance? id = some p) {parameters : ParameterSet}
    {conversation : Option String} {w : World β} (hw : e.world.Aside w)
    (hop : op.isReset = false)
    (hr : ({ p with parameters, conversation } : Playback β).perform fuel w op = some r) :
    Steps e (e.put r) := by
  let p' : Playback β := { p with parameters, conversation }
  have hp' : (e.put (p', w)).instance? id = some p' := by
    rw [instance?_put, hp, Option.map_some]
    exact congrArg some (if_pos rfl)
  have hid : r.1.id = p'.id := (Playback.stages_perform hop hr).id_eq
  have hact : Steps (e.put (p', w)) ((e.put (p', w)).put r) := steps_act op hp' hop hr
  rw [put_put e (p', w) r hid] at hact
  exact (steps_told hp parameters conversation hw).trans hact

end Engine

end Cutscene
