import Cutscene.Proofs.Engine.Handled

/-!
# Editions and their instances

A graph is found under its id in the edition that was registered last, and its instances remember
the edition that they were made of. `Engine.Filed` gathers what that amounts to, most of all that an
edition which allows for a single instance never has two (`Filed.single`): nodes go back on the
shelf for the next instance of the same edition (`Engine.Shelves`), so which of two instances put
them there would matter.
-/

namespace Cutscene.Engine

variable {β : Type}

/-- Graphs are found under their ids, and instances under their editions. -/
structure Filed (e : Engine β) : Prop where
  titled : ∀ graph edition, e.graphs.get? graph = some edition → edition.graph.id = graph
  numbered : ∀ graph edition, e.graphs.get? graph = some edition → edition.number < e.nextEdition
  dated : ∀ p ∈ e.instances, ∃ number < e.nextEdition, p.edition = some number
  current : ∀ p ∈ e.instances, ∀ edition, e.graphs.get? p.graph = some edition →
    p.edition = some edition.number → p.settings = edition.graph.settings
  single : ∀ p ∈ e.instances, ∀ q ∈ e.instances, p.graph = q.graph → p.edition = q.edition →
    p.settings.multiInstance = false → p.id = q.id

theorem filed_ofKinds (config : Config) (kinds : List (NodeKind β)) :
    (ofKinds config kinds).Filed where
  titled graph edition h := by simp [ofKinds, Table.get?] at h
  numbered graph edition h := by simp [ofKinds, Table.get?] at h
  dated _ hp := absurd hp List.not_mem_nil
  current _ hp := absurd hp List.not_mem_nil
  single _ hp := absurd hp List.not_mem_nil

variable {e e' : Engine β}

/-- Only what instances are made of matters, and none of that ever changes. -/
theorem Filed.congr (h : e.Filed) (hg : e'.graphs = e.graphs)
    (hn : e'.nextEdition = e.nextEdition)
    (hi : ∀ p' ∈ e'.instances, ∃ p ∈ e.instances, p'.id = p.id ∧ p'.graph = p.graph ∧
      p'.settings = p.settings ∧ p'.edition = p.edition) : e'.Filed where
  titled := by
    rw [hg]
    exact h.titled
  numbered := by
    rw [hg, hn]
    exact h.numbered
  dated p' hp' := by
    obtain ⟨p, hp, -, -, -, hedition⟩ := hi p' hp'
    rw [hedition, hn]
    exact h.dated p hp
  current p' hp' := by
    obtain ⟨p, hp, -, hgraph, hsettings, hedition⟩ := hi p' hp'
    rw [hgraph, hsettings, hedition, hg]
    exact h.current p hp
  single p' hp' q' hq' := by
    obtain ⟨p, hp, hpid, hpgraph, hpsettings, hpedition⟩ := hi p' hp'
    obtain ⟨q, hq, hqid, hqgraph, -, hqedition⟩ := hi q' hq'
    rw [hpid, hqid, hpgraph, hqgraph, hpsettings, hpedition, hqedition]
    exact h.single p hp q hq

theorem Filed.of_instances_subset (h : e.Filed) (hg : e'.graphs = e.graphs)
    (hn : e'.nextEdition = e.nextEdition) (hi : ∀ p ∈ e'.instances, p ∈ e.instances) :
    e'.Filed :=
  h.congr hg hn fun p hp => ⟨p, hi p hp, rfl, rfl, rfl, rfl⟩

/-- What an instance does, or what is done to it, does not make it another instance. -/
theorem Filed.put (h : e.Filed) {p : Playback β} (hp : e.instance? p.id = some p)
    {r : Playback β × World β} (hid : r.1.id = p.id) (hg : r.1.graph = p.graph)
    (hs : r.1.settings = p.settings) (hed : r.1.edition = p.edition) : (e.put r).Filed := by
  refine h.congr rfl rfl fun q hq => ?_
  rcases mem_instances_put hq with rfl | ⟨hq, -⟩
  · exact ⟨p, mem_instances_of_instance? hp, hid, hg, hs, hed⟩
  · exact ⟨q, hq, rfl, rfl, rfl, rfl⟩

/-- A graph is registered in an edition that no instance has been made of. -/
theorem Filed.register (h : e.Filed) (graph : Graph) : (e.register graph).Filed := by
  have hget : ∀ key edition, (e.register graph).graphs.get? key = some edition →
      key = graph.id ∧ edition = ⟨e.nextEdition, graph⟩ ∨
        key ≠ graph.id ∧ e.graphs.get? key = some edition := by
    intro key edition hkey
    simp only [Engine.register, Table.get?_insert] at hkey
    split_ifs at hkey with hname
    · exact Or.inl ⟨hname, (Option.some.inj hkey).symm⟩
    · exact Or.inr ⟨hname, hkey⟩
  refine ⟨?_, ?_, ?_, ?_, h.single⟩
  · intro key edition hkey
    -- The graph is filed under its own id.
    rcases hget key edition hkey with ⟨rfl, rfl⟩ | ⟨-, hold⟩
    · rfl
    · exact h.titled key edition hold
  · intro key edition hkey
    rcases hget key edition hkey with ⟨-, rfl⟩ | ⟨-, hold⟩
    · exact Nat.lt_succ_self _
    · exact Nat.lt_succ_of_lt (h.numbered key edition hold)
  · intro p hp
    obtain ⟨number, hlt, hedition⟩ := h.dated p hp
    exact ⟨number, Nat.lt_succ_of_lt hlt, hedition⟩
  · intro p hp edition hkey hedition
    rcases hget p.graph edition hkey with ⟨-, rfl⟩ | ⟨-, hold⟩
    · -- No instance has the number of an edition that is new.
      obtain ⟨number, hlt, hdated⟩ := h.dated p hp
      obtain rfl := Option.some.inj (hdated.symm.trans hedition)
      exact absurd hlt (Nat.lt_irrefl _)
    · exact h.current p hp edition hold hedition

/-- A second instance is only made of an edition that allows for several. -/
theorem Filed.create (h : e.Filed) {graph : String} {edition : Edition}
    (hg : e.graphs.get? graph = some edition) (hn : e.NeedsInstance edition graph)
    (nodes : List (Node β)) : (e.create edition nodes).1.Filed := by
  -- Where another instance has got the edition, the graph allows several.
  have htitle := h.titled graph edition hg
  have hother : ∀ p ∈ e.instances, p.graph = edition.graph.id →
      p.edition = some edition.number → p.settings.multiInstance = true := by
    intro p hp hgraph hedition
    rw [htitle] at hgraph
    rcases hn with hmulti | hnone
    · rw [h.current p hp edition (by rw [hgraph]; exact hg) hedition]
      exact hmulti
    · exact absurd hgraph (hnone p hp)
  have hmem : ∀ p ∈ (e.create edition nodes).1.instances, p ∈ e.instances ∨
      p.id = e.nextId ∧ p.graph = edition.graph.id ∧ p.settings = edition.graph.settings ∧
        p.edition = some edition.number := by
    intro p hp
    rcases List.mem_append.mp hp with hp | hp
    · exact Or.inl hp
    · rw [List.mem_singleton.mp hp]
      exact Or.inr ⟨rfl, rfl, rfl, rfl⟩
  refine ⟨h.titled, h.numbered, ?_, ?_, ?_⟩
  · intro p hp
    rcases hmem p hp with hp | ⟨-, -, -, hedition⟩
    · exact h.dated p hp
    · exact ⟨edition.number, h.numbered graph edition hg, hedition⟩
  · intro p hp edition' hget hedition'
    rcases hmem p hp with hp | ⟨-, hgraph, hsettings, -⟩
    · exact h.current p hp edition' hget hedition'
    · rw [hgraph, htitle] at hget
      obtain rfl := Option.some.inj (hg.symm.trans hget)
      exact hsettings
  · intro p hp q hq hgraph hedition hm
    rcases hmem p hp with hp | ⟨hpid, hpgraph, hpsettings, hpedition⟩
    · rcases hmem q hq with hq | ⟨-, hqgraph, -, hqedition⟩
      · exact h.single p hp q hq hgraph hedition hm
      · -- An instance from before and the new one: the graph allows several.
        have hmulti := hother p hp (hgraph.trans hqgraph) (hedition.trans hqedition)
        simp [hm] at hmulti
    · rcases hmem q hq with hq | ⟨hqid, -, -, -⟩
      · have hmulti := hother q hq (hgraph.symm.trans hpgraph) (hedition.symm.trans hpedition)
        rw [hpsettings] at hm
        rw [h.current q hq edition (by rw [← hgraph, hpgraph, htitle]; exact hg)
          (hedition.symm.trans hpedition), hm] at hmulti
        simp at hmulti
      · exact hpid.trans hqid.symm

variable [Behaviour β]

theorem Filed.step (h : e.Filed) (hs : Step e e') : e'.Filed := by
  cases hs with
  | act hp hop hr =>
    have hidentity := Playback.identity_perform hr
    exact h.put hp (congrArg Playback.Identity.id hidentity)
      (congrArg Playback.Identity.graph hidentity) (congrArg Playback.Identity.settings hidentity)
      (congrArg Playback.Identity.edition hidentity)
  | told hp parameters conversation => exact h.put hp rfl rfl rfl rfl
  | forgot hp => exact h.put hp rfl rfl rfl rfl
  | around | trim | allow | reload => exact h.of_instances_subset rfl rfl fun _ hp => hp
  | register graph => exact h.register graph
  | @spawn _ graph id hs =>
    -- Either an instance was there, or the graph needed one.
    rcases spawn_cases hs with ⟨rfl, -⟩ | ⟨edition, nodes, notices, parked, hg, hneeds, -, -, heq⟩
    · exact h
    · obtain rfl : e' = _ := congrArg Prod.fst heq
      have hnoticed : (({ e with parked } : Engine β).noticeAll notices).Filed :=
        h.of_instances_subset rfl rfl fun _ hp => hp
      exact hnoticed.create hg hneeds nodes
  | @park p hp hrun =>
    obtain ⟨parked, hpark, -⟩ := e.park_eq p
    rw [hpark e.instances]
    exact h.of_instances_subset rfl rfl fun _ hp => hp
  | sweep => exact h.of_instances_subset rfl rfl fun _ hp => List.mem_of_mem_filter hp

theorem Filed.steps (h : e.Filed) (hs : Steps e e') : e'.Filed :=
  hs.invariant h fun _ _ he hstep => he.step hstep

theorem Filed.touch (h : e.Filed) (ht : Touch e e') : e'.Filed := by
  cases ht with
  | step hs => exact h.step hs
  | @meddle p hp r hr =>
    cases hr with
    | clear => exact h.put hp rfl rfl rfl rfl
    | reset unqueue =>
      have hidentity := p.identity_halt
      exact h.put hp (congrArg Playback.Identity.id hidentity)
        (congrArg Playback.Identity.graph hidentity)
        (congrArg Playback.Identity.settings hidentity)
        (congrArg Playback.Identity.edition hidentity)

/-- Whatever a host does, no edition for a single instance has two. -/
theorem Handled.filed (h : e.Handled) : e.Filed :=
  h.invariant filed_ofKinds fun _ _ _ he ht => he.touch ht

/-- What new engines have and everything that can happen to a filed one keeps. -/
theorem Handled.invariant_of_filed {I : Engine β → Prop} (h : e.Handled)
    (hstart : ∀ config kinds, I (ofKinds config kinds))
    (htouch : ∀ e e' : Engine β, e.Linked → e.Filed → I e → Touch e e' → I e') : I e := by
  have hboth : e.Filed ∧ I e :=
    h.invariant (I := fun e => e.Filed ∧ I e)
      (fun config kinds => ⟨filed_ofKinds config kinds, hstart config kinds⟩)
      fun e e' hl he ht => ⟨he.1.touch ht, htouch e e' hl he.1 he.2 ht⟩
  exact hboth.2

theorem Steps.invariant_of_filed {I : Engine β → Prop} (hs : Steps e e') (hl : e.Linked)
    (hf : e.Filed) (h : I e)
    (hstep : ∀ e e' : Engine β, e.Linked → e.Filed → I e → Step e e' → I e') : I e' := by
  have hall : e'.Linked ∧ e'.Filed ∧ I e' :=
    hs.invariant (I := fun e => e.Linked ∧ e.Filed ∧ I e) ⟨hl, hf, h⟩
      fun e e' he hone => ⟨he.1.step hone, he.2.1.step hone, hstep e e' he.1 he.2.1 he.2.2 hone⟩
  exact hall.2.2

/-! ### What goes on the shelf -/

omit [Behaviour β]

/-- The nodes of an instance are kept for the next instance of a graph. -/
def Shelves (e : Engine β) (p : Playback β) (graph : String) : Prop :=
  p.settings.multiInstance = false ∧ p.graph = graph ∧
    ∃ edition, e.graphs.get? graph = some edition ∧ p.edition = some edition.number

theorem get?_park (e : Engine β) (p : Playback β) (graph : String) :
    e.Shelves p graph ∧ (e.park p).parked.get? graph = some p.nodes ∨
      ¬ e.Shelves p graph ∧ (e.park p).parked.get? graph = e.parked.get? graph := by
  unfold park
  by_cases hm : p.settings.multiInstance = true
  · rw [if_pos hm]
    -- Instances of a graph that allows several are not put on the shelf.
    exact Or.inr ⟨fun h => by simp [h.1] at hm, rfl⟩
  · rw [if_neg hm]
    cases hg : e.graphs.get? p.graph with
    | none =>
      refine Or.inr ⟨?_, rfl⟩
      rintro ⟨-, rfl, edition, hget, -⟩
      simp [hg] at hget
    | some edition =>
      dsimp only
      by_cases hed : p.edition = some edition.number
      · rw [if_pos hed, Table.get?_insert]
        by_cases hname : graph = p.graph
        · rw [if_pos hname]
          exact Or.inl ⟨⟨by simpa using hm, hname.symm, edition, hname ▸ hg, hed⟩, rfl⟩
        · rw [if_neg hname]
          exact Or.inr ⟨fun h => hname h.2.1.symm, rfl⟩
      · -- The graph has been registered anew since, so the instance is of no use.
        rw [if_neg hed]
        refine Or.inr ⟨?_, rfl⟩
        rintro ⟨-, rfl, other, hget, hother⟩
        obtain rfl := Option.some.inj (hg.symm.trans hget)
        exact hed hother

/-- What is on the shelf in the end has been put there by one of the instances, or was there. -/
theorem get?_foldl_park (e : Engine β) (done : List (Playback β)) (graph : String) :
    (∃ p ∈ done, e.Shelves p graph ∧
        (done.foldl park e).parked.get? graph = some p.nodes) ∨
      (∀ p ∈ done, ¬ e.Shelves p graph) ∧
        (done.foldl park e).parked.get? graph = e.parked.get? graph := by
  induction done generalizing e with
  | nil => exact Or.inr ⟨fun p hp => absurd hp List.not_mem_nil, rfl⟩
  | cons p rest ih =>
    have hshelves : ∀ q, (e.park p).Shelves q graph ↔ e.Shelves q graph := by
      intro q
      obtain ⟨parked, hpark, -⟩ := e.park_eq p
      rw [hpark e.instances]
      rfl
    rcases ih (e.park p) with ⟨q, hq, hq', hget⟩ | ⟨hnone, hget⟩
    · -- A later instance takes the place.
      exact Or.inl ⟨q, List.mem_cons_of_mem p hq, (hshelves q).mp hq', hget⟩
    · rcases e.get?_park p graph with ⟨hp, hp'⟩ | ⟨hp, hp'⟩
      · exact Or.inl ⟨p, List.mem_cons_self, hp, hget.trans hp'⟩
      · -- None of the later ones is put there, so the place is as the first one left it.
        refine Or.inr ⟨fun q hq => ?_, hget.trans hp'⟩
        rcases List.mem_cons.mp hq with rfl | hq
        · exact hp
        · exact fun h => hnone q hq ((hshelves q).mpr h)

/-- Only one instance at most can put nodes on the shelf for a graph. -/
theorem Filed.shelves_unique (h : e.Filed) {p q : Playback β} (hp : p ∈ e.instances)
    (hq : q ∈ e.instances) {graph : String} (hp' : e.Shelves p graph) (hq' : e.Shelves q graph) :
    p.id = q.id := by
  obtain ⟨hm, hpg, edition, hget, hpe⟩ := hp'
  obtain ⟨-, hqg, edition', hget', hqe⟩ := hq'
  obtain rfl := Option.some.inj (hget.symm.trans hget')
  exact h.single p hp q hq (hpg.trans hqg.symm) (hpe.trans hqe.symm) hm

end Cutscene.Engine
