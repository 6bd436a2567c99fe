import Cutscene.Proofs.Engine.Consistent
import Cutscene.Proofs.Engine.Editions
import Cutscene.Proofs.Playback.Memos

/-!
# What a skip takes again

A skip of a run that is under way takes the outputs again that the run has taken. Where they come
from is followed through everything that can happen to nodes: instances run, are paused and resumed,
go, and leave their nodes on the shelf, from which others take them (`Engine.Mindful`). By
`skip_recalls_since_began` no output is taken again that goes back to a time before the instance
began last. An instance that was made for a saved run is resumed without ever having begun, so it
may take again what the instance before it chose.
-/

namespace Cutscene

variable {β : Type} [Behaviour β]

/-- Everything that some nodes of a graph remember goes back to calls of the graph. -/
def World.Recorded (w : World β) (graph : String) (nodes : List (Node β)) : Prop :=
  ∀ index output, memoAt nodes index = some output →
    ∃ c : Call β, .call c ∈ w.journal ∧ c.graph = graph ∧ c.Leaves index output

theorem Playback.Mindful.recorded {p : Playback β} {w : World β} (h : p.Mindful w) :
    w.Recorded p.graph p.nodes := by
  intro index output hmemo
  obtain ⟨c, hc, hgraph, -, hleaves⟩ := h index output hmemo
  exact ⟨c, World.mem_journal_of_mem_sinceBegan hc, hgraph, hleaves⟩

/-- An instance that has never begun may come by its nodes in any way. -/
theorem World.Recorded.mindful {p : Playback β} {w : World β} (h : w.Recorded p.graph p.nodes)
    (hb : ¬w.HasBegun p.id) : p.Mindful w := by
  intro index output hmemo
  obtain ⟨c, hc, hgraph, hleaves⟩ := h index output hmemo
  rw [World.sinceBegan_of_not_hasBegun hb]
  exact ⟨c, hc, hgraph, fun hbegun => absurd hbegun hb, hleaves⟩

theorem World.Recorded.mono {w w' : World β} {graph : String} {nodes : List (Node β)}
    (h : w.Recorded graph nodes) (hj : ∀ entry ∈ w.journal, entry ∈ w'.journal) :
    w'.Recorded graph nodes := by
  intro index output hmemo
  obtain ⟨c, hc, hgraph, hleaves⟩ := h index output hmemo
  exact ⟨c, hj _ hc, hgraph, hleaves⟩

omit [Behaviour β] in
theorem World.Aside.lasts {w w' : World β} (h : w.Aside w') (id : Nat) : w.Lasts id w' := by
  obtain ⟨notices, hj⟩ := h.journal
  refine ⟨notices.map .notice, hj, fun entry hentry => ?_⟩
  obtain ⟨notice, -, rfl⟩ := List.mem_map.mp hentry
  rfl

omit [Behaviour β] in
theorem World.Lasts.mem_journal {w w' : World β} {id : Nat} (h : w.Lasts id w') {entry : Entry β}
    (hentry : entry ∈ w.journal) : entry ∈ w'.journal := by
  obtain ⟨entries, hj, -⟩ := h
  rw [hj]
  exact List.mem_append_right _ hentry

namespace Engine

/-- Everything that nodes remember has been chosen, and where they belong to an instance that has
begun, since then. -/
structure Mindful (e : Engine β) : Prop where
  instances : ∀ p ∈ e.instances, p.Mindful e.world
  /-- No instance has begun that has not been made yet. -/
  unborn : ∀ id, e.nextId ≤ id → ¬e.world.HasBegun id
  shelved : ∀ graph nodes, e.parked.get? graph = some nodes → e.world.Recorded graph nodes

theorem mindful_ofKinds (config : Config) (kinds : List (NodeKind β)) :
    (ofKinds config kinds).Mindful where
  instances _ hp := absurd hp List.not_mem_nil
  unborn id _ := by simp [ofKinds, World.HasBegun]
  shelved graph nodes h := by simp [ofKinds, Table.get?] at h

omit [Behaviour β] in
/-- New nodes remember nothing. -/
theorem memoAt_prepare (e : Engine β) (graph : Graph) (index : Nat) :
    memoAt (e.prepare graph).1 index = none := by
  have hnode : ∀ node : Graph.Node, (e.prepareNode node).1.memo = none := by
    intro node
    unfold prepareNode
    dsimp only
    split
    · rfl
    · split <;> rfl
  simp only [memoAt, prepare, List.map_map, List.getElem?_map, Option.bind_map]
  cases graph.nodes[index]? with
  | none => rfl
  | some node => exact hnode node

variable {e e' : Engine β}

/-- The world may go on for all as long as no one begins, and the shelf may lose what it has. -/
theorem Mindful.mono (h : e.Mindful) (hi : ∀ p ∈ e'.instances, p ∈ e.instances)
    (hn : e'.nextId = e.nextId) (hw : ∀ id, e.world.Lasts id e'.world)
    (hs : ∀ graph nodes, e'.parked.get? graph = some nodes → e.world.Recorded graph nodes) :
    e'.Mindful where
  instances p hp := (h.instances p (hi p hp)).of_nodes_eq rfl rfl rfl (hw p.id)
  unborn id hid hb := by
    rw [hn] at hid
    exact h.unborn id hid ((hw id).hasBegun hb)
  shelved graph nodes hget := (hs graph nodes hget).mono fun _ => (hw 0).mem_journal

/-- An instance may change as long as it stays mindful and no other begins. -/
theorem Mindful.put (h : e.Mindful) (hl : e.Linked) {p : Playback β}
    (hp : e.instance? p.id = some p) {r : Playback β × World β} (hid : r.1.id = p.id)
    (hm : r.1.Mindful r.2) (hw : ∀ id, id ≠ p.id → e.world.Lasts id r.2) : (e.put r).Mindful where
  instances q hq := by
    rcases mem_instances_put hq with rfl | ⟨hq, hne⟩
    · exact hm
    · rw [hid] at hne
      exact (h.instances q hq).of_nodes_eq rfl rfl rfl (hw q.id hne)
  unborn id hlt hb := by
    have hfresh := hl.tables.fresh p (mem_instances_of_instance? hp)
    have hlt : e.nextId ≤ id := hlt
    exact h.unborn id hlt ((hw id (by omega)).hasBegun hb)
  shelved graph nodes hget := by
    have hne : p.id + 1 ≠ p.id := by omega
    exact (h.shelved graph nodes hget).mono fun _ => (hw _ hne).mem_journal

/-- An instance takes over what its nodes remember. -/
theorem Mindful.create (h : e.Mindful) {edition : Edition} {nodes : List (Node β)}
    (hn : e.world.Recorded edition.graph.id nodes) : (e.create edition nodes).1.Mindful where
  instances p hp := by
    rcases List.mem_append.mp hp with hp | hp
    · exact h.instances p hp
    · obtain rfl := List.mem_singleton.mp hp
      exact World.Recorded.mindful hn (h.unborn e.nextId (Nat.le_refl _))
  unborn id hid := h.unborn id (Nat.le_of_succ_le hid)
  shelved := h.shelved

theorem Mindful.spawn (h : e.Mindful) (hf : e.Filed) {graph : String} {id : Nat}
    (hs : e.spawn graph = .ok (e', id)) : e'.Mindful := by
  rcases spawn_cases hs with
    ⟨rfl, -⟩ | ⟨edition, nodes, notices, parked, hg, -, hnodes, hparked, heq⟩
  · exact h
  · obtain rfl : e' = _ := congrArg Prod.fst heq
    -- The nodes come from the shelf with the memos that they had there, or they are new and have
    -- none.
    have hrecorded : e.world.Recorded graph nodes := by
      rcases hnodes with ⟨hget, -⟩ | ⟨-, hprepare⟩
      · exact h.shelved graph nodes hget
      · intro index output hmemo
        rw [show nodes = _ from congrArg Prod.fst hprepare, memoAt_prepare] at hmemo
        simp at hmemo
    have hw : ∀ id, e.world.Lasts id (e.world.noticeAll notices) :=
      fun id => e.world.lasts_noticeAll notices id
    have hnoticed : (({ e with parked } : Engine β).noticeAll notices).Mindful := by
      refine h.mono (fun _ hp => hp) rfl hw fun key others hget => ?_
      change parked.get? key = some others at hget
      rw [hparked] at hget
      split_ifs at hget with hkey
      · rw [← Option.some.inj hget, hkey]
        exact hrecorded
      · exact h.shelved key others hget
    refine hnoticed.create ?_
    rw [hf.titled graph edition hg]
    exact hrecorded.mono fun _ => (hw 0).mem_journal

theorem Mindful.step (h : e.Mindful) (hl : e.Linked) (hf : e.Filed) (hs : Step e e') :
    e'.Mindful := by
  have hshelf := h.shelved
  cases hs with
  | @act p fuel op r hp hop hr =>
    have hmem := mem_instances_of_instance? hp
    have hnot := hl.notSkipping p hmem
    have hid : r.1.id = p.id := congrArg Playback.Identity.id (Playback.identity_perform hr)
    exact h.put hl hp hid ((h.instances p hmem).perform hnot hr)
      fun id hne => Playback.lasts_perform hne hnot hr
  | @told p hp parameters conversation =>
    have hm := (h.instances p (mem_instances_of_instance? hp)).of_nodes_eq
      (q := { p with parameters, conversation }) rfl rfl rfl (.refl e.world p.id)
    exact h.put hl hp rfl hm fun id _ => .refl e.world id
  | @forgot p hp =>
    exact h.put hl hp rfl (p.remembersNothing_forgetChoices.mindful e.world)
      fun id _ => .refl e.world id
  | around hw => exact h.mono (fun _ hp => hp) rfl hw.lasts hshelf
  | trim | allow | reload =>
    exact h.mono (fun _ hp => hp) rfl (fun _ => .of_journal_eq rfl) hshelf
  | register graph =>
    refine h.mono (fun _ hp => hp) rfl (fun _ => .of_journal_eq rfl) fun key nodes hget => ?_
    simp only [Engine.register, Table.get?_erase] at hget
    split_ifs at hget
    exact hshelf key nodes hget
  | spawn hs => exact h.spawn hf hs
  | @park p hp hrun =>
    -- The nodes that go on the shelf have the memos of their instance.
    have hrecorded := (h.instances p hp).recorded
    obtain ⟨hinstances, hworld⟩ := e.park_instances p
    refine h.mono (fun q hq => hinstances ▸ hq) ?_ (fun id => ?_) fun key nodes hget => ?_
    · obtain ⟨parked, hpark, -⟩ := e.park_eq p
      rw [hpark e.instances]
    · rw [hworld]
      exact .refl e.world id
    · unfold Engine.park at hget
      split_ifs at hget with hm
      · -- Nodes of a graph that allows several instances are not kept.
        exact hshelf key nodes hget
      · cases hg : e.graphs.get? p.graph with
        | none =>
          rw [hg] at hget
          exact hshelf key nodes hget
        | some edition =>
          rw [hg] at hget
          dsimp only at hget
          split_ifs at hget
          · rw [Table.get?_insert] at hget
            split_ifs at hget with hkey
            · -- What the shelf has for the graph now is what the instance had.
              rw [← Option.some.inj hget, hkey]
              exact hrecorded
            · exact hshelf key nodes hget
          · exact hshelf key nodes hget
  | sweep =>
    exact h.mono (fun _ hp => List.mem_of_mem_filter hp) rfl (fun _ => .of_journal_eq rfl) hshelf

theorem Mindful.touch (h : e.Mindful) (hl : e.Linked) (hf : e.Filed) (ht : Touch e e') :
    e'.Mindful := by
  cases ht with
  | step hs => exact h.step hl hf hs
  | @meddle p hp r hr =>
    have hm := h.instances p (mem_instances_of_instance? hp)
    cases hr with
    | clear => exact h.put hl hp rfl hm.clearBranches fun id _ => .refl e.world id
    | reset unqueue =>
      have hid : p.halt.id = p.id := congrArg Playback.Identity.id p.identity_halt
      have hhalted : p.halt.Mindful { e.world with
          registry := e.world.registry.modify p.id (·.reset unqueue) } :=
        hm.halt.of_nodes_eq rfl rfl rfl (.of_journal_eq rfl)
      exact h.put hl hp hid hhalted fun id _ => .of_journal_eq rfl

/-- Whatever a host does, nodes remember nothing but what has been chosen. -/
theorem Handled.mindful (h : e.Handled) : e.Mindful :=
  h.invariant_of_filed mindful_ofKinds fun _ _ hl hf he ht => he.touch hl hf ht

theorem Mindful.steps (h : e.Mindful) (hl : e.Linked) (hf : e.Filed) (hs : Steps e e') :
    e'.Mindful :=
  hs.invariant_of_filed hl hf h fun _ _ hl hf he hstep => he.step hl hf hstep

end Engine

/-! ### Skips -/

/-- What is remembered in a skip was remembered when the skip began, and the playback was active. -/
theorem Playback.memoAt_of_skipping {p : Playback β} {w : World β} {start : Nat} {t : Turn β}
    (ht : (p.skipBeginning w start).Changes t) (hs : t.playback.skipping = true)
    {index output : Nat} (h : memoAt t.playback.nodes index = some output) :
    p.isActive = true ∧ memoAt p.nodes index = some output := by
  have hbegins : (p.skipBeginning w start).playback.skipping = true →
      memoAt (p.skipBeginning w start).playback.nodes index = some output →
      p.isActive = true ∧ memoAt p.nodes index = some output := by
    unfold skipBeginning
    intro hskips hmemo
    split_ifs at hskips hmemo
    · -- A playback that is killed is not skipped.
      exact absurd hskips Bool.false_ne_true
    · unfold skipTurn skippingFrom at hmemo
      cases hp : p.isActive with
      | true =>
        simp only [hp, if_true] at hmemo
        exact ⟨rfl, memoAt_of_map hmemo fun _ => rfl⟩
      | false =>
        simp only [hp, Bool.false_eq_true, if_false] at hmemo
        rw [p.clearBranches.remembersNothing_forgetChoices index] at hmemo
        simp at hmemo
  refine ht.invariant (I := fun u : Turn β => u.playback.skipping = true →
    memoAt u.playback.nodes index = some output → p.isActive = true ∧
      memoAt p.nodes index = some output) hbegins (fun _ _ hu _ hc hskips hmemo => ?_) hs h
  exact hu (hc.skipping hskips) (hc.memoAt_of_skipping hskips hmemo)

/-- Wherever an engine has come to in the course of an operation, if an instance is skipped then and
the skip comes to take an output of a node again (`Turn.changes_of_works`), the instance was active,
and the node has been asked for the output in a run that was not skipped. The instance itself has
asked, since it began last; only one that has never begun may have come by nodes that others of its
graph have asked. -/
theorem Engine.skip_recalls_since_began {e e₁ : Engine β} (h : e.Handled) (hs : Steps e e₁)
    {id : Nat} {p : Playback β} (hp : e₁.instance? id = some p) {start : Nat} {t : Turn β}
    (ht : (p.skipBeginning e₁.world start).Changes t) {index output : Nat} {node : Node β} {b : β}
    (hn : t.playback.nodes[index]? = some node) (hm : t.recalled? node b = some output) :
    p.isActive = true ∧ ∃ c : Call β, .call c ∈ e₁.world.sinceBegan id ∧ c.graph = p.graph ∧
      (e₁.world.HasBegun id → c.playback = id) ∧ c.Leaves index output := by
  unfold Turn.recalled? at hm
  split_ifs at hm with hskips
  have hskipping : t.playback.skipping = true := (Bool.and_eq_true_iff.mp hskips).1
  have hmemo : memoAt t.playback.nodes index = some output := by
    rw [memoAt, hn]
    exact hm
  obtain ⟨hactive, hold⟩ := Playback.memoAt_of_skipping ht hskipping hmemo
  have hmindful := (h.mindful.steps h.linked h.filed hs).instances p (mem_instances_of_instance? hp)
  have hsource := hmindful index output hold
  rw [instance?_id hp] at hsource
  exact ⟨hactive, hsource⟩

/-! ### A graph that takes turns -/

namespace Engine

/-- A kind of nodes that take their two outputs in turn. -/
def turns : NodeKind Builtin where
  name := "turns"
  validate _ := .ok ()
  prepare _ := .ok (.cycle ⟨2, false, 0⟩)

/-- A graph whose second node leads back to itself every other time. -/
def roundabout : Graph where
  id := "roundabout"
  name := "roundabout"
  nodes := [{ kind := "turns" }, { kind := "turns", endings := [.goto 1, .stop] }]

/-- Once the graph is triggered at its second node, the node has been asked and waits to be run
again. -/
theorem reachable_roundabout : ∃ e : Engine Builtin, Reachable (fun _ => True) e ∧
    ∃ p, e.instance? 0 = some p ∧ p.isActive = true ∧ p.nodes.length = 2 ∧
      (p.skipTurn e.world 1).playback.nodes[1]?.map (·.memo) = some (some 0) := by
  have htrigger : ∃ e, ((ofKinds {} [turns]).register roundabout).perform 1
      (.trigger "roundabout" { start := some 1 }) = some e ∧
      ∃ p, e.instance? 0 = some p ∧ p.isActive = true ∧ p.nodes.length = 2 ∧
        (p.skipTurn e.world 1).playback.nodes[1]?.map (·.memo) = some (some 0) :=
    ⟨_, perform_trigger (by decide) (by decide) rfl rfl
      ((Playback.play_of_ne_zero 1 _ true Nat.one_ne_zero (by decide)).trans rfl) rfl,
      _, rfl, rfl, rfl, rfl⟩
  obtain ⟨e, he, hrun⟩ := htrigger
  have hregistered : Reachable (fun _ => True) ((ofKinds {} [turns]).register roundabout) :=
    (Reachable.start {} [turns]).register roundabout trivial
  exact ⟨e, hregistered.perform trivial he, hrun⟩

/-- A skip of the roundabout begins with the output that its second node has just taken. -/
theorem skip_recalls_since_began_roundabout : ∃ (e : Engine Builtin) (c : Call Builtin),
    Reachable (fun _ => True) e ∧ .call c ∈ e.world.sinceBegan 0 ∧ c.Leaves 1 0 := by
  obtain ⟨e, he, p, hp, -, hlength, hmemo⟩ := reachable_roundabout
  have hbegins : p.skipBeginning e.world 1 = p.skipTurn e.world 1 := by
    rw [Playback.skipBeginning, if_neg (by omega)]
  obtain ⟨node, hn, hnode⟩ := Option.map_eq_some_iff.mp hmemo
  have hrecalled : (p.skipTurn e.world 1).recalled? node (.cycle ⟨2, false, 0⟩) = some 0 :=
    (if_pos rfl).trans hnode
  have hchanges : (p.skipBeginning e.world 1).Changes (p.skipTurn e.world 1) := by
    rw [hbegins]
  obtain ⟨-, c, hc, -, -, hleaves⟩ := skip_recalls_since_began he.handled .refl hp hchanges hn
    hrecalled
  exact ⟨e, c, he, hc, hleaves⟩

end Engine

end Cutscene
