import Cutscene.Proofs.Engine.Equations
import Cutscene.Proofs.Saving

/-!
# Moves of an engine

An operation of an engine nests further ones: it spawns and releases instances, resumes records,
applies commands. Whatever it does comes to a `Course` of moves, and each `Move` changes one of the
tables of the engine: an instance does something (`Act`), the registry is thinned out, nodes are put
on the shelf or taken off it, instances appear or go. A course keeps the acts of its instances in
order, so that it also says who did what.
-/

namespace Cutscene

variable {β : Type}

/-- None of the nodes is in the middle of its execution. -/
def AtRest (nodes : List (Node β)) : Prop := ∀ n ∈ nodes, n.running = false

/-- The same run of a playback, with other parameters, another conversation to follow, or other
memos. -/
structure Playback.Adjusted (p p' : Playback β) : Prop where
  id : p'.id = p.id
  graph : p'.graph = p.graph
  phase : p'.phase = p.phase
  pending : p'.pending = p.pending
  resumePoints : p'.resumePoints = p.resumePoints
  pauseRequested : p'.pauseRequested = p.pauseRequested
  skipping : p'.skipping = p.skipping
  nodes : p'.nodes.map (·.running) = p.nodes.map (·.running)

/-- Parameters and conversations can be set at any time. -/
theorem Playback.adjusted (p : Playback β) (parameters : ParameterSet)
    (conversation : Option String) : p.Adjusted { p with parameters, conversation } :=
  ⟨rfl, rfl, rfl, rfl, rfl, rfl, rfl, rfl⟩

/-- The registry is empty, or comes from a save. -/
def Registry.IsAnew (reg : Registry) : Prop := reg = {} ∨ ∃ data, reg = (load data).1

/-- No record of a registry that is made anew belongs to an instance. -/
theorem Registry.IsAnew.attached_eq_nil {reg : Registry} (h : reg.IsAnew) : reg.attached = [] := by
  rcases h with rfl | ⟨data, rfl⟩
  · rfl
  · refine List.filterMap_eq_nil_iff.mpr fun r hr => ?_
    exact (settled_of_mem_load hr).playback

/-- What an instance does on being asked to. -/
structure Act (β : Type) where
  playback : Playback β
  world : World β
  operation : Playback.Operation
  result : Playback β × World β

namespace Engine

/-- Nodes that an instance can be made of: new ones, parked ones, or those of an instance that does
not run. -/
def Available (e : Engine β) (nodes : List (Node β)) : Prop :=
  AtRest nodes ∨ (∃ graph, e.parked.get? graph = some nodes) ∨
    ∃ p ∈ e.instances, p.phase ≠ .running ∧ nodes = p.nodes

/-- No instance asks for what is taken away: it is over, or it is halted and has no record. -/
def IsIdle (e : Engine β) (p : Playback β) : Prop :=
  p.phase = .finished ∨ p.phase = .idle ∧ e.world.registry.record? p.id = none

variable [Behaviour β]

/-- One change of an engine, with what instances do in it. -/
inductive Move (e : Engine β) : List (Act β) → Engine β → Prop
  /-- An instance does something. Resetting its record is not for a move. -/
  | act {p : Playback β} {fuel : Nat} {op : Playback.Operation} {r : Playback β × World β}
    (hp : e.instance? p.id = some p) (hop : op.isReset = false)
    (hr : p.perform fuel e.world op = some r) : Move e [⟨p, e.world, op, r⟩] (e.put r)
  | adjust {p p' : Playback β} (hp : e.instance? p.id = some p) (h : p.Adjusted p') :
    Move e [] (e.put (p', e.world))
  /-- Something happens in the world that neither the registry nor an observer hears of. -/
  | around {w : World β} (hr : w.registry = e.world.registry)
    (he : ∀ id, w.eventsOf id = e.world.eventsOf id) : Move e [] { e with world := w }
  | trim {reg : Registry} (h : e.world.registry.Trim reg) : Move e [] (e.withRegistry reg)
  | shelve {kinds : Table (NodeKind β)} {graphs : Table Edition}
    {parked : Table (List (Node β))} {disabled : List String} {nextEdition : Nat}
    (h : ∀ graph nodes, parked.get? graph = some nodes → e.Available nodes) :
    Move e [] { e with kinds, graphs, parked, disabled, nextEdition }
  | create (edition : Edition) {nodes : List (Node β)} (h : e.Available nodes) :
    Move e [] (e.create edition nodes).1
  | sweep {keep : Playback β → Bool} (h : ∀ p ∈ e.instances, keep p = false → e.IsIdle p) :
    Move e [] { e with instances := e.instances.filter keep }
  /-- The registry is made anew once there are no instances. -/
  | reload {reg : Registry} (h : e.instances = []) (hr : reg.IsAnew) :
    Move e [] (e.withRegistry reg)

/-- Moves one after the other, with all that instances do in them, oldest first. -/
inductive Course (e : Engine β) : List (Act β) → Engine β → Prop
  | refl : Course e [] e
  | tail {acts acts' : List (Act β)} {e' e'' : Engine β} (h : Course e acts e')
    (hm : Move e' acts' e'') : Course e (acts ++ acts') e''

/-- Any number of moves lead from one engine to another. -/
def Moves (e e' : Engine β) : Prop := ∃ acts, Course e acts e'

theorem Course.trans {e e' e'' : Engine β} {acts acts' : List (Act β)} (h : Course e acts e')
    (h' : Course e' acts' e'') : Course e (acts ++ acts') e'' := by
  induction h' with
  | refl =>
    rw [List.append_nil]
    exact h
  | tail _ hm ih =>
    rw [← List.append_assoc]
    exact ih.tail hm

theorem Moves.refl (e : Engine β) : Moves e e := ⟨[], .refl⟩

theorem Moves.trans {e e' e'' : Engine β} (h : Moves e e') (h' : Moves e' e'') : Moves e e'' := by
  obtain ⟨acts, hc⟩ := h
  obtain ⟨acts', hc'⟩ := h'
  exact ⟨acts ++ acts', hc.trans hc'⟩

theorem Move.moves {e e' : Engine β} {acts : List (Act β)} (h : Move e acts e') : Moves e e' :=
  ⟨[] ++ acts, .tail .refl h⟩

/-! ### Instances in their place -/

omit [Behaviour β] in
theorem instance?_id {e : Engine β} {id : Nat} {p : Playback β} (h : e.instance? id = some p) :
    p.id = id := by
  simpa using List.find?_some h

omit [Behaviour β] in
theorem instance?_self {e : Engine β} {id : Nat} {p : Playback β} (h : e.instance? id = some p) :
    e.instance? p.id = some p := by
  rw [instance?_id h]
  exact h

omit [Behaviour β] in
theorem mem_instances_of_instance? {e : Engine β} {id : Nat} {p : Playback β}
    (h : e.instance? id = some p) : p ∈ e.instances :=
  List.mem_of_find?_eq_some h

omit [Behaviour β] in
theorem instance?_put (e : Engine β) (r : Playback β × World β) (id : Nat) :
    (e.put r).instance? id =
      (e.instance? id).map fun p => if p.id = r.1.id then r.1 else p := by
  have hid : ((fun q : Playback β => decide (q.id = id)) ∘
      fun p => if p.id = r.1.id then r.1 else p) = fun q => decide (q.id = id) := by
    funext q
    simp only [Function.comp_apply]
    split_ifs with h
    · rw [h]
    · rfl
  unfold instance? put
  rw [List.find?_map, hid]

omit [Behaviour β] in
theorem put_put (e : Engine β) (r r' : Playback β × World β) (h : r'.1.id = r.1.id) :
    (e.put r).put r' = e.put r' := by
  unfold put
  simp only [List.map_map]
  congr 1
  refine List.map_congr_left fun q _ => ?_
  simp only [Function.comp_apply, h]
  split_ifs with hq hr
  · rfl
  · exact absurd rfl hr
  · rfl

/-! ### Single moves -/

theorem moves_noticeAll (e : Engine β) (notices : List Notice) :
    Moves e (e.noticeAll notices) := by
  have hquiet := e.world.quiet_noticeAll notices
  exact (Move.around hquiet.registry hquiet.events).moves

/-! ### Nodes on the shelf -/

omit [Behaviour β] in
theorem atRest_prepare (e : Engine β) (graph : Graph) : AtRest (e.prepare graph).1 := by
  intro n hn
  simp only [prepare, List.map_map, List.mem_map, Function.comp_apply] at hn
  obtain ⟨node, -, rfl⟩ := hn
  unfold prepareNode
  dsimp only
  split
  · rfl
  · split <;> rfl

omit [Behaviour β] in
/-- Parking the nodes of a playback changes nothing but what is parked. -/
theorem park_eq (e : Engine β) (p : Playback β) :
    ∃ parked, (∀ instances, ({ e with instances } : Engine β).park p =
        { e with instances, parked }) ∧
      ∀ graph nodes, parked.get? graph = some nodes →
        nodes = p.nodes ∨ e.parked.get? graph = some nodes := by
  have hsame : ∀ graph nodes, e.parked.get? graph = some nodes →
      nodes = p.nodes ∨ e.parked.get? graph = some nodes := fun _ _ => Or.inr
  have hinsert : ∀ graph nodes, (e.parked.insert p.graph p.nodes).get? graph = some nodes →
      nodes = p.nodes ∨ e.parked.get? graph = some nodes := by
    intro graph nodes h
    rw [Table.get?_insert] at h
    split_ifs at h
    · exact Or.inl (Option.some.inj h).symm
    · exact Or.inr h
  unfold park
  -- Nodes are parked only for the next instance of the same edition of a graph.
  by_cases hm : p.settings.multiInstance
  · exact ⟨e.parked, fun _ => if_pos hm, hsame⟩
  · simp only [hm, Bool.false_eq_true, if_false]
    cases e.graphs.get? p.graph with
    | none => exact ⟨e.parked, fun _ => rfl, hsame⟩
    | some edition =>
      by_cases hed : p.edition = some edition.number
      · simp only [hed, if_true]
        exact ⟨_, fun _ => rfl, hinsert⟩
      · simp only [hed, if_false]
        exact ⟨e.parked, fun _ => rfl, hsame⟩

theorem moves_park {e : Engine β} {p : Playback β} (hp : p ∈ e.instances)
    (hrun : p.phase ≠ .running) : Moves e (e.park p) := by
  obtain ⟨parked, hpark, havailable⟩ := e.park_eq p
  rw [hpark e.instances]
  refine (Move.shelve fun graph nodes h => ?_).moves
  rcases havailable graph nodes h with hnodes | hold
  · exact Or.inr (Or.inr ⟨p, hp, hrun, hnodes⟩)
  · exact Or.inr (Or.inl ⟨graph, hold⟩)

omit [Behaviour β] in
theorem park_withInstances (e : Engine β) (p : Playback β) (instances : List (Playback β)) :
    ({ e with instances } : Engine β).park p = { e.park p with instances } := by
  obtain ⟨parked, hpark, -⟩ := e.park_eq p
  rw [hpark instances, hpark e.instances]

omit [Behaviour β] in
theorem park_instances (e : Engine β) (p : Playback β) :
    (e.park p).instances = e.instances ∧ (e.park p).world = e.world := by
  obtain ⟨parked, hpark, -⟩ := e.park_eq p
  rw [hpark e.instances]
  exact ⟨rfl, rfl⟩

omit [Behaviour β] in
theorem foldl_park_withInstances (e : Engine β) (done instances : List (Playback β)) :
    done.foldl park ({ e with instances } : Engine β) = { done.foldl park e with instances } := by
  induction done generalizing e with
  | nil => rfl
  | cons p rest ih =>
    rw [List.foldl_cons, List.foldl_cons, park_withInstances]
    exact ih (e.park p)

omit [Behaviour β] in
theorem foldl_park_eq (e : Engine β) (done : List (Playback β)) :
    done.foldl park e = { e with parked := (done.foldl park e).parked } := by
  induction done generalizing e with
  | nil => rfl
  | cons p rest ih =>
    obtain ⟨parked, hpark, -⟩ := e.park_eq p
    rw [List.foldl_cons, hpark e.instances]
    exact ih _

omit [Behaviour β] in
theorem foldl_park_instances (e : Engine β) (done : List (Playback β)) :
    (done.foldl park e).instances = e.instances ∧ (done.foldl park e).world = e.world := by
  rw [foldl_park_eq]
  exact ⟨rfl, rfl⟩

/-- An instance is found or made. -/
theorem moves_spawn {e e' : Engine β} {graph : String} {id : Nat}
    (h : e.spawn graph = .ok (e', id)) : Moves e e' := by
  rcases spawn_cases h with
    ⟨rfl, -⟩ | ⟨edition, nodes, notices, parked, -, -, hnodes, hparked, heq⟩
  · exact .refl e'
  · obtain rfl : e' = _ := congrArg Prod.fst heq
    have hsource : AtRest nodes ∨ e.parked.get? graph = some nodes := by
      rcases hnodes with ⟨hget, -⟩ | ⟨-, hprepare⟩
      · exact Or.inr hget
      · rw [show nodes = _ from congrArg Prod.fst hprepare]
        exact Or.inl (e.atRest_prepare edition.graph)
    have hcreate : Move (e.noticeAll notices) []
        ((e.noticeAll notices).create edition nodes).1 := by
      refine .create edition ?_
      rcases hsource with hrest | hget
      · exact Or.inl hrest
      · exact Or.inr (Or.inl ⟨graph, hget⟩)
    -- The shelf changes last, so that what is taken off it is still there for the instance.
    have hshelve : Move ((e.noticeAll notices).create edition nodes).1 []
        { ((e.noticeAll notices).create edition nodes).1 with parked } := by
      refine .shelve fun key others hget => ?_
      rw [hparked] at hget
      split_ifs at hget
      · obtain rfl := Option.some.inj hget
        exact hsource.imp_right fun hget => Or.inl ⟨graph, hget⟩
      · exact Or.inr (Or.inl ⟨key, hget⟩)
    exact ((moves_noticeAll e notices).trans hcreate.moves).trans hshelve.moves

end Engine

end Cutscene
