import Cutscene.Proofs.Engine.History
import Cutscene.Proofs.Playback.Traits

/-!
# Instances are what their graphs say

The nodes of a playback change as it goes along, but not in what is fixed about them
(`Playback.traits_perform`). So what a graph says of its nodes shows in the nodes of an instance
(`Engine.Matches`) for as long as the edition that it was made of is the registered one, whether
they were made for it or taken from the shelf. Above all, an instance has as many nodes as its
edition, with the same endings: `Engine.Faithful`.
-/

namespace Cutscene

variable {β : Type}

/-- Where the nodes of a playback lead. -/
def Playback.endings (p : Playback β) : List (List Ending) := p.nodes.map (·.endings)

namespace Playback

variable [Behaviour β]

/-- Whatever a playback is asked to do, its nodes lead where they led. -/
theorem endings_perform {p : Playback β} {w : World β} {fuel : Nat} {op : Operation}
    {r : Playback β × World β} (hs : p.skipping = false) (hr : p.perform fuel w op = some r) :
    r.1.endings = p.endings :=
  traits_perform Node.fixed_endings hs hr

theorem length_skip {p : Playback β} {w : World β} {fuel start : Nat} {r : Playback β × World β}
    (hs : p.skipping = false) (hr : p.skip fuel w start = some r) :
    r.1.nodes.length = p.nodes.length := by
  have hskip : p.perform fuel w (.skip start) = some r := hr
  have hendings := endings_perform hs hskip
  have hlength := congrArg List.length hendings
  simpa [endings] using hlength

end Playback

/-- The nodes lead where those of the graph do. -/
def Edition.Describes (edition : Edition) (nodes : List (Node β)) : Prop :=
  nodes.map (·.endings) = edition.graph.nodes.map (·.endings)

theorem Edition.Describes.length_eq {edition : Edition} {nodes : List (Node β)}
    (h : edition.Describes nodes) : nodes.length = edition.graph.nodes.length := by
  have hlength := congrArg List.length h
  simpa using hlength

namespace Engine

/-- What is shown by the nodes of instances and by those on the shelf is what their graphs, as they
are registered, tell of them. -/
structure Matches {κ : Type} (shown : Node β → κ) (told : Graph.Node → κ) (e : Engine β) :
    Prop where
  instances : ∀ p ∈ e.instances, ∀ edition, e.graphs.get? p.graph = some edition →
    p.edition = some edition.number → p.nodes.map shown = edition.graph.nodes.map told
  shelved : ∀ graph nodes edition, e.parked.get? graph = some nodes →
    e.graphs.get? graph = some edition → nodes.map shown = edition.graph.nodes.map told

/-- Instances and nodes on the shelf are what their graphs say as they are registered. -/
structure Faithful (e : Engine β) : Prop where
  instances : ∀ p ∈ e.instances, ∀ edition, e.graphs.get? p.graph = some edition →
    p.edition = some edition.number → edition.Describes p.nodes
  shelved : ∀ graph nodes edition, e.parked.get? graph = some nodes →
    e.graphs.get? graph = some edition → edition.Describes nodes

variable {κ : Type} {shown : Node β → κ} {told : Graph.Node → κ} {e e' : Engine β}

theorem matches_ofKinds (config : Config) (kinds : List (NodeKind β)) :
    (ofKinds config kinds).Matches shown told where
  instances _ hp := absurd hp List.not_mem_nil
  shelved graph nodes edition h := by simp [ofKinds, Table.get?] at h

/-- What happens to an instance does not matter as long as its nodes show what they showed. -/
theorem Matches.put (h : e.Matches shown told) {p : Playback β}
    (hp : e.instance? p.id = some p) {r : Playback β × World β} (hg : r.1.graph = p.graph)
    (hed : r.1.edition = p.edition) (hn : r.1.nodes.map shown = p.nodes.map shown) :
    (e.put r).Matches shown told where
  instances q hq edition hget hedition := by
    rcases mem_instances_put hq with rfl | ⟨hq, -⟩
    · rw [hg] at hget
      rw [hed] at hedition
      exact hn.trans (h.instances p (mem_instances_of_instance? hp) edition hget hedition)
    · exact h.instances q hq edition hget hedition
  shelved := h.shelved

/-- Instances may go, and nothing else that changes has to do with graphs and nodes. -/
theorem Matches.mono (h : e.Matches shown told) (hg : e'.graphs = e.graphs)
    (hp : e'.parked = e.parked) (hi : ∀ p ∈ e'.instances, p ∈ e.instances) :
    e'.Matches shown told where
  instances p hp := by
    rw [hg]
    exact h.instances p (hi p hp)
  shelved := by
    rw [hg, hp]
    exact h.shelved

/-- No instance is of the edition that is registered, and there are no nodes for it either. -/
theorem Matches.register (h : e.Matches shown told) (hf : e.Filed) (graph : Graph) :
    (e.register graph).Matches shown told where
  instances p hp edition hget hedition := by
    simp only [Engine.register, Table.get?_insert] at hget
    split_ifs at hget
    · obtain rfl := Option.some.inj hget
      obtain ⟨number, hlt, hdated⟩ := hf.dated p hp
      obtain rfl := Option.some.inj (hdated.symm.trans hedition)
      exact absurd hlt (Nat.lt_irrefl _)
    · exact h.instances p hp edition hget hedition
  shelved key nodes edition hshelf hget := by
    simp only [Engine.register, Table.get?_insert, Table.get?_erase] at hget hshelf
    split_ifs at hget hshelf
    exact h.shelved key nodes edition hshelf hget

theorem Matches.park (h : e.Matches shown told) {p : Playback β} (hp : p ∈ e.instances) :
    (e.park p).Matches shown told := by
  obtain ⟨parked, hpark, -⟩ := e.park_eq p
  have hgraphs : (e.park p).graphs = e.graphs := by
    rw [hpark e.instances]
  constructor
  · rw [hgraphs, (e.park_instances p).1]
    exact h.instances
  · rw [hgraphs]
    intro key nodes edition hget hedition
    rcases e.get?_park p key with ⟨⟨-, rfl, edition', hget', hpe⟩, hparked⟩ | ⟨-, hparked⟩
    · -- Only an instance of the registered edition puts its nodes on the shelf.
      obtain rfl := Option.some.inj (hget'.symm.trans hedition)
      obtain rfl := Option.some.inj (hparked.symm.trans hget)
      exact h.instances p hp _ hedition hpe
    · exact h.shelved key nodes edition (hparked.symm.trans hget) hedition

theorem Matches.foldl_park (h : e.Matches shown told) {done : List (Playback β)}
    (hd : ∀ p ∈ done, p ∈ e.instances) : (done.foldl Engine.park e).Matches shown told := by
  induction done generalizing e with
  | nil => exact h
  | cons p rest ih =>
    refine ih (h.park (hd p List.mem_cons_self)) fun q hq => ?_
    rw [(e.park_instances p).1]
    exact hd q (List.mem_cons_of_mem p hq)

/-- Nodes that are made for an instance have to show what their graph tells of them. -/
theorem Matches.spawn (h : e.Matches shown told) (hf : e.Filed) {graph : String} {id : Nat}
    (hs : e.spawn graph = .ok (e', id))
    (hprepare : ∀ node, shown (e.prepareNode node).1 = told node) : e'.Matches shown told := by
  rcases spawn_cases hs with
    ⟨rfl, -⟩ | ⟨edition, nodes, notices, parked, hg, -, hnodes, hparked, heq⟩
  · exact h
  · obtain rfl : e' = _ := congrArg Prod.fst heq
    have hmatch : nodes.map shown = edition.graph.nodes.map told := by
      -- The nodes are from the shelf, or they are made of those of the edition.
      rcases hnodes with ⟨hget, -⟩ | ⟨-, hmade⟩
      · exact h.shelved graph nodes edition hget hg
      · rw [show nodes = _ from congrArg Prod.fst hmade]
        simp only [prepare, List.map_map]
        exact List.map_congr_left fun node _ => hprepare node
    constructor
    · intro p hp other hget hother
      rcases List.mem_append.mp hp with hp | hp
      · exact h.instances p hp other hget hother
      · -- The new instance is of the edition that its graph has now.
        obtain rfl := List.mem_singleton.mp hp
        have hsame : e.graphs.get? edition.graph.id = some other := hget
        rw [hf.titled graph edition hg, hg] at hsame
        obtain rfl := Option.some.inj hsame
        exact hmatch
    · intro key others other hget hother
      change parked.get? key = some others at hget
      change e.graphs.get? key = some other at hother
      rw [hparked] at hget
      split_ifs at hget with hkey
      · -- If the nodes stay on the shelf for others, they are still of that edition.
        subst hkey
        obtain rfl := Option.some.inj hget
        obtain rfl := Option.some.inj (hg.symm.trans hother)
        exact hmatch
      · exact h.shelved key others other hget hother

variable [Behaviour β]

/-- What is fixed about nodes goes on to match. -/
theorem Matches.doing {d : Deed β} (h : e.Matches shown told) (hfixed : Node.Fixed shown)
    (hl : e.Linked) (hf : e.Filed) (hd : Doing e d e')
    (hprepare : ∀ graph, d = .spawn graph → ∀ node, shown (e.prepareNode node).1 = told node) :
    e'.Matches shown told := by
  have hlasting := hfixed.toLasting
  cases hd with
  | @act p hp parameters conversation _ _ _ r _ hr =>
    have hidentity := Playback.identity_perform hr
    have hnot := hl.notSkipping p (mem_instances_of_instance? hp)
    -- What it is told before it acts does not touch its nodes.
    have htraits : r.1.nodes.map shown = p.nodes.map shown :=
      Playback.traits_perform (p := { p with parameters, conversation }) hfixed hnot hr
    exact h.put hp (congrArg Playback.Identity.graph hidentity)
      (congrArg Playback.Identity.edition hidentity) htraits
  | brief hp => exact h.put hp rfl rfl rfl
  | @forget p hp => exact h.put hp rfl rfl (Playback.traits_forgetChoices hlasting p)
  | @clear p hp => exact h.put hp rfl rfl (Playback.traits_clearBranches hlasting p)
  | @reset p hp unqueue =>
    have hidentity := p.identity_halt
    exact h.put hp (congrArg Playback.Identity.graph hidentity)
      (congrArg Playback.Identity.edition hidentity) (Playback.traits_halt hlasting p)
  | note | pass | thin | unqueue | allow | reload => exact h.mono rfl rfl fun _ hp => hp
  | register graph => exact h.register hf graph
  | spawn hs => exact h.spawn hf hs (hprepare _ rfl)
  | @retire keep gone hretires =>
    unfold retired
    rw [foldl_park_withInstances]
    -- What is retired had the nodes of its edition, and takes them to the shelf.
    have hparked := h.foldl_park fun p hp => (hretires.mem p hp).1
    refine hparked.mono rfl rfl fun p hp => ?_
    rw [(foldl_park_instances e gone).1]
    exact List.mem_of_mem_filter hp

/-! ### Endings -/

omit [Behaviour β]

theorem faithful_iff_matches :
    e.Faithful ↔ e.Matches (fun n => n.endings) fun n : Graph.Node => n.endings :=
  ⟨fun h => ⟨h.instances, h.shelved⟩, fun h => ⟨h.instances, h.shelved⟩⟩

theorem endings_prepareNode (e : Engine β) (node : Graph.Node) :
    (e.prepareNode node).1.endings = node.endings := by
  unfold prepareNode
  dsimp only
  split
  · rfl
  · split <;> rfl

theorem Faithful.spawn (h : e.Faithful) (hf : e.Filed) {graph : String} {id : Nat}
    (hs : e.spawn graph = .ok (e', id)) : e'.Faithful :=
  faithful_iff_matches.mpr ((faithful_iff_matches.mp h).spawn hf hs e.endings_prepareNode)

variable [Behaviour β]

theorem Faithful.doing {d : Deed β} (h : e.Faithful) (hl : e.Linked) (hf : e.Filed)
    (hd : Doing e d e') : e'.Faithful :=
  faithful_iff_matches.mpr
    ((faithful_iff_matches.mp h).doing Node.fixed_endings hl hf hd fun _ _ => e.endings_prepareNode)

/-- Whatever a host does, instances are what their graphs say. -/
theorem Handled.faithful (h : e.Handled) : e.Faithful :=
  h.invariant_of_deeds (fun _ _ => faithful_iff_matches.mpr (matches_ofKinds _ _))
    fun _ _ _ hl hf he hd => he.doing hl hf hd

end Engine

end Cutscene
