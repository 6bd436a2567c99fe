import Cutscene.Proofs.Engine.Consistent
import Cutscene.Proofs.Engine.History

/-!
# Nodes are in one place

The nodes of a graph with a single instance are either in use by the instance or on the shelf, where
the last instance has left them for the next one: `Engine.Custody` goes from deed to deed once the
graph has been given an instance, as long as it is not registered again. Of a graph with several
instances the nodes stay on the shelf as they were made, and every instance gets a copy
(`Does.prototype`). `nodes_in_one_place` puts the two together.
-/

namespace Cutscene.Engine

variable {β : Type}

/-- Whatever is registered, it is not this graph. -/
def Unregistered (graph : String) (_ : Engine β) (d : Deed β) : Prop :=
  ∀ template, d = .register template → template.id ≠ graph

/-- Nor is this graph given an instance. -/
def Unserved (graph : String) (e : Engine β) (d : Deed β) : Prop :=
  Unregistered graph e d ∧ d ≠ .spawn graph

variable [Behaviour β] {e e₁ e₂ e' : Engine β} {d : Deed β} {graph : String} {edition : Edition}

/-! ### What a deed does to a graph -/

theorem Doing.get?_graphs (h : Doing e d e') (hd : Unregistered graph e d) :
    e'.graphs.get? graph = e.graphs.get? graph := by
  cases h with
  | register template =>
    simp only [Engine.register, Table.get?_insert]
    rw [if_neg (hd template rfl).symm]
  | @spawn _ other id hs =>
    rcases spawn_cases hs with ⟨rfl, -⟩ | ⟨edition, nodes, notices, parked, -, -, -, -, heq⟩
    · rfl
    · obtain rfl : e' = _ := congrArg Prod.fst heq
      rfl
  | retire =>
    unfold retired
    rw [foldl_park_eq]
  | _ => rfl

/-- An instance stays until it is retired. -/
theorem Doing.stays (h : Doing e d e') (ht : e.Tables) (hne : d ≠ .retire) {p : Playback β}
    (hp : p ∈ e.instances) : ∃ q ∈ e'.instances, p.SameMake q := by
  have hput : ∀ {p₀ q : Playback β}, e.instance? p₀.id = some p₀ → p₀.SameMake q →
      e'.instances = (e.put (q, e'.world)).instances → ∃ q ∈ e'.instances, p.SameMake q := by
    intro p₀ q hp₀ hsame heq
    rw [heq]
    rcases ht.mem_put hp₀ (r := (q, e'.world)) hsame.id hp with ⟨rfl, hmem⟩ | ⟨-, hmem⟩
    · exact ⟨q, hmem, hsame⟩
    · exact ⟨p, hmem, .refl p⟩
  cases h.instances with
  | same heq => exact ⟨p, heq ▸ hp, .refl p⟩
  | acted _ hdid heq => exact hput hdid.instance? hdid.sameMake heq
  | changed hp₀ hstays _ heq => exact hput hp₀ hstays.toSameMake heq
  | made _ heq => exact ⟨p, heq ▸ List.mem_append_left _ hp, .refl p⟩
  | gone hd => exact absurd hd hne

/-- A graph that is not given an instance has only those that it had. -/
theorem Doing.mem_of_unserved (h : Doing e d e') (hf : e.Filed) (hd : Unserved graph e d)
    {q : Playback β} (hq : q ∈ e'.instances) (hg : q.graph = graph) :
    ∃ p ∈ e.instances, p.SameMake q := by
  rcases h.old_or_made hq with hold | hmade
  · exact hold
  · obtain ⟨other, edition, rfl, hother, hqg⟩ := hmade.source
    rw [hqg, hf.titled other edition hother] at hg
    exact absurd (congrArg Deed.spawn hg) hd.2

omit [Behaviour β] in
/-- Of the instances that go, one at most puts its nodes on the shelf for a graph. -/
theorem get?_parked_retired (e : Engine β) (keep : Playback β → Bool) (gone : List (Playback β))
    (graph : String) :
    (∃ p ∈ gone, e.Shelves p graph ∧
        (e.retired keep gone).parked.get? graph = some p.nodes) ∨
      (∀ p ∈ gone, ¬ e.Shelves p graph) ∧
        (e.retired keep gone).parked.get? graph = e.parked.get? graph :=
  get?_foldl_park { e with instances := e.instances.filter keep } gone graph

omit [Behaviour β] in
theorem mem_retired {keep : Playback β → Bool} {gone : List (Playback β)} {q : Playback β} :
    q ∈ (e.retired keep gone).instances ↔ q ∈ e.instances ∧ keep q = true := by
  unfold retired
  rw [(foldl_park_instances _ gone).1, List.mem_filter]

/-- What is on the shelf for a graph stays there, unless the graph is given an instance or an
instance puts its own nodes there. -/
theorem Doing.get?_parked (h : Doing e d e') (hd : Unserved graph e d)
    (hnot : d = .retire → ∀ p ∈ e.instances, ¬ e.Shelves p graph) :
    e'.parked.get? graph = e.parked.get? graph := by
  cases h with
  | register template =>
    simp only [Engine.register, Table.get?_erase]
    rw [if_neg (hd.1 template rfl).symm]
  | @spawn _ other id hs =>
    rcases spawn_cases hs with ⟨rfl, -⟩ | ⟨edition, nodes, notices, parked, -, -, -, hparked, heq⟩
    · rfl
    · obtain rfl : e' = _ := congrArg Prod.fst heq
      have hother : graph ≠ other := fun hsame => hd.2 (by rw [hsame])
      exact (hparked graph).trans (if_neg hother)
  | @retire keep gone hr =>
    rcases e.get?_parked_retired keep gone graph with ⟨p, hp, hshelves, -⟩ | ⟨-, hparked⟩
    · exact absurd hshelves (hnot rfl p (hr.mem p hp).1)
    · exact hparked
  | _ => rfl

/-- What an instance is made of that a graph has been given: of what is on the shelf, or else of new
nodes. The nodes of a graph with several instances are on the shelf afterwards, too. -/
structure Equips (e : Engine β) (graph : String) (edition : Edition) (p : Playback β)
    (e' : Engine β) : Prop where
  id : p.id = e.nextId
  title : p.graph = edition.graph.id
  number : p.edition = some edition.number
  instances : e'.instances = e.instances ++ [p]
  shelved : ∀ nodes, e.parked.get? graph = some nodes → p.nodes = nodes
  prepared : e.parked.get? graph = none → p.nodes = (e.prepare edition.graph).1
  parked : e'.parked.get? graph =
    if edition.graph.settings.multiInstance then some p.nodes else none

omit [Behaviour β] in
/-- A graph with a single instance has it already, or else an instance is made for it. -/
theorem equips_of_spawn {id : Nat} (hg : e.graphs.get? graph = some edition)
    (hs : e.spawn graph = .ok (e', id)) :
    (e' = e ∧ edition.graph.settings.multiInstance = false ∧
      ∃ p ∈ e.instances, p.graph = graph ∧ p.id = id) ∨
    e.NeedsInstance edition graph ∧ id = e.nextId ∧ ∃ p, e.Equips graph edition p e' := by
  rcases spawn_cases hs with ⟨rfl, ⟨edition', hg', hm⟩, hold⟩ |
    ⟨edition', nodes, notices, parked, hg', hneeds, hnodes, hparked, heq⟩
  · obtain rfl := Option.some.inj (hg.symm.trans hg')
    exact Or.inl ⟨rfl, hm, hold⟩
  · obtain rfl := Option.some.inj (hg.symm.trans hg')
    obtain ⟨rfl, rfl⟩ := Prod.mk.inj heq
    refine Or.inr ⟨hneeds, rfl, _, rfl, rfl, rfl, rfl, fun others hothers => ?_, fun hempty => ?_,
      (hparked graph).trans (if_pos rfl)⟩
    · rcases hnodes with ⟨hsome, -⟩ | ⟨hempty, -⟩
      · exact Option.some.inj (hsome.symm.trans hothers)
      · simp [hempty] at hothers
    · rcases hnodes with ⟨hsome, -⟩ | ⟨-, hprepare⟩
      · simp [hsome] at hempty
      · exact congrArg Prod.fst hprepare

/-! ### Graphs with a single instance -/

/-- What an instance had when it went, because it was over and nobody would ask for it. It was the
last instance of its graph. -/
def LeftBehind (graph : String) (nodes : List (Node β)) (e₁ e : Engine β) : Prop :=
  ∃ a b p, Does (Unregistered graph) e₁ a ∧ p ∈ a.instances ∧ p.graph = graph ∧ a.IsIdle p ∧
    Doing a .retire b ∧ Does (Unserved graph) b e ∧ nodes = p.nodes

/-- Who has the nodes of a graph. -/
inductive Custody (graph : String) (number : Nat) (e₁ e : Engine β) : Prop
  | inUse {p : Playback β} (hp : p ∈ e.instances) (hg : p.graph = graph)
    (hn : p.edition = some number) (hsole : ∀ q ∈ e.instances, q.graph = graph → q.id = p.id)
    (hs : e.parked.get? graph = none)
  | onShelf {nodes : List (Node β)} (hnone : ∀ q ∈ e.instances, q.graph ≠ graph)
    (hs : e.parked.get? graph = some nodes) (hl : LeftBehind graph nodes e₁ e)

omit [Behaviour β] in
theorem Equips.mem {p : Playback β} (h : e.Equips graph edition p e') : p ∈ e'.instances := by
  rw [h.instances]
  exact List.mem_append_right _ List.mem_cons_self

/-- A graph with a single instance has it in use once it has been given it. -/
theorem Equips.custody {p : Playback β} (h : e.Equips graph edition p e')
    (hg : e.graphs.get? graph = some edition)
    (hm : edition.graph.settings.multiInstance = false) (hn : e.NeedsInstance edition graph)
    (hf : e.Filed) : Custody graph edition.number e₁ e' := by
  have hnone : ∀ q ∈ e.instances, q.graph ≠ graph := hn.resolve_left (by simp [hm])
  refine .inUse h.mem (h.title.trans (hf.titled graph edition hg)) h.number
    (fun q hq hqg => ?_) ?_
  · rw [h.instances] at hq
    rcases List.mem_append.mp hq with hq | hq
    · exact absurd hqg (hnone q hq)
    · rw [List.mem_singleton.mp hq]
  · rw [h.parked, if_neg (by simp [hm])]

/-- Where the nodes are after instances have gone, if they were in use: still in use, or on the
shelf if their instance is among those that have gone. -/
theorem Custody.retire {keep : Playback β → Bool} {gone : List (Playback β)}
    (hd : Does (Unregistered graph) e₁ e) (hl : e.Linked) (hf : e.Filed)
    (hg : e.graphs.get? graph = some edition) (hm : edition.graph.settings.multiInstance = false)
    {p : Playback β} (hp : p ∈ e.instances) (hpg : p.graph = graph)
    (hn : p.edition = some edition.number)
    (hsole : ∀ q ∈ e.instances, q.graph = graph → q.id = p.id)
    (hs : e.parked.get? graph = none) (hr : e.Retires keep gone) :
    Custody graph edition.number e₁ (e.retired keep gone) := by
  have heq : ∀ q ∈ e.instances, q.graph = graph → q = p := fun q hq hqg =>
    List.inj_on_of_nodup_map hl.tables.ids hq hp (hsole q hq hqg)
  -- No other instance could put its nodes on the shelf for the graph.
  have hgone : ∀ q ∈ gone, e.Shelves q graph → q = p ∧ keep p = false := by
    intro q hq hshelves
    obtain ⟨hqmem, hkeep⟩ := hr.mem q hq
    obtain rfl := heq q hqmem hshelves.2.1
    exact ⟨rfl, hkeep⟩
  cases hkeep : keep p with
  | true =>
    refine .inUse (mem_retired.mpr ⟨hp, hkeep⟩) hpg hn
      (fun q hq hqg => hsole q (mem_retired.mp hq).1 hqg) ?_
    rcases e.get?_parked_retired keep gone graph with ⟨q, hq, hshelves, -⟩ | ⟨-, hparked⟩
    · simp [(hgone q hq hshelves).2] at hkeep
    · exact hparked.trans hs
  | false =>
    have hshelved : (e.retired keep gone).parked.get? graph = some p.nodes := by
      rcases e.get?_parked_retired keep gone graph with ⟨q, hq, hshelves, hparked⟩ | ⟨hnot, -⟩
      · rw [hparked, (hgone q hq hshelves).1]
      · -- The instance is of the registered edition, so it does put its nodes on the shelf.
        obtain ⟨q, hq, hid⟩ := hr.all p hp hkeep
        obtain rfl := List.inj_on_of_nodup_map hl.tables.ids (hr.mem q hq).1 hp hid
        have hsettings := hf.current q hp edition (hpg ▸ hg) hn
        exact absurd ⟨hsettings ▸ hm, hpg, edition, hg, hn⟩ (hnot q hq)
    refine .onShelf (fun q hq hqg => ?_) hshelved
      ⟨e, _, p, hd, hp, hpg, hr.idle p hp hkeep, .retire hr, .refl, rfl⟩
    obtain ⟨hqmem, hqkeep⟩ := mem_retired.mp hq
    rw [heq q hqmem hqg, hkeep] at hqkeep
    simp at hqkeep

theorem Custody.doing (h : Custody graph edition.number e₁ e)
    (hd : Does (Unregistered graph) e₁ e) (hl : e.Linked) (hf : e.Filed)
    (hg : e.graphs.get? graph = some edition) (hm : edition.graph.settings.multiInstance = false)
    (hdoing : Doing e d e') (hu : Unregistered graph e d) :
    Custody graph edition.number e₁ e' := by
  by_cases hspawn : d = .spawn graph
  · subst hspawn
    cases hdoing with
    | spawn hs =>
      rcases equips_of_spawn hg hs with ⟨rfl, -⟩ | ⟨hn, -, p, hp⟩
      · exact h
      · exact hp.custody hg hm hn hf
  · have hunserved : Unserved graph e d := ⟨hu, hspawn⟩
    cases h with
    | @inUse p hp hpg hn hsole hs =>
      -- Nothing but a retirement takes the instance away.
      by_cases hretire : d = .retire
      · subst hretire
        cases hdoing with
        | retire hr => exact .retire hd hl hf hg hm hp hpg hn hsole hs hr
      · have hparked := hdoing.get?_parked hunserved fun hr => absurd hr hretire
        obtain ⟨p', hp', hsame⟩ := hdoing.stays hl.tables hretire hp
        refine .inUse hp' (hsame.graph.trans hpg) (hsame.edition.trans hn) (fun q' hq' hqg => ?_)
          (hparked.trans hs)
        obtain ⟨q, hq, hqsame⟩ := hdoing.mem_of_unserved hf hunserved hq' hqg
        rw [hqsame.id, hsame.id]
        exact hsole q hq (hqsame.graph.symm.trans hqg)
    | @onShelf nodes hnone hs hleft =>
      obtain ⟨a, b, p, ha, hp, hpg, hidle, hb, hafter, rfl⟩ := hleft
      have hparked := hdoing.get?_parked hunserved fun _ q hq hshelves =>
        hnone q hq hshelves.2.1
      refine .onShelf (fun q' hq' hqg => ?_) (hparked.trans hs)
        ⟨a, b, p, ha, hp, hpg, hidle, hb, hafter.tail ⟨d, hunserved, hdoing⟩, rfl⟩
      obtain ⟨q, hq, hqsame⟩ := hdoing.mem_of_unserved hf hunserved hq' hqg
      exact hnone q hq (hqsame.graph.symm.trans hqg)

theorem Does.get?_graphs (hd : Does (Unregistered graph) e e') :
    e'.graphs.get? graph = e.graphs.get? graph := by
  induction hd with
  | refl => rfl
  | tail _ hone ih =>
    obtain ⟨d, hu, hdoing⟩ := hone
    exact (hdoing.get?_graphs hu).trans ih

/-- From its first instance on the nodes of a graph are in one place. -/
theorem Does.custody (hd : Does (Unregistered graph) e₁ e)
    (h : Custody graph edition.number e₁ e₁) (hl : e₁.Linked) (hf : e₁.Filed)
    (hg : e₁.graphs.get? graph = some edition)
    (hm : edition.graph.settings.multiInstance = false) : Custody graph edition.number e₁ e := by
  induction hd with
  | refl => exact h
  | tail hfirst hone ih =>
    obtain ⟨d, hu, hdoing⟩ := hone
    exact ih.doing hfirst (hl.does hfirst) (hf.does hfirst) ((Does.get?_graphs hfirst).trans hg) hm
      hdoing hu

omit [Behaviour β] in
theorem filter_graph_eq (hl : e.Tables) {p : Playback β} (hp : p ∈ e.instances)
    (hpg : p.graph = graph) (hsole : ∀ q ∈ e.instances, q.graph = graph → q.id = p.id) :
    e.instances.filter (·.graph = graph) = [p] := by
  have hnodup : (e.instances.filter (·.graph = graph)).Nodup := hl.ids.of_map.filter _
  refine List.perm_singleton.mp
    ((List.perm_ext_iff_of_nodup hnodup (List.nodup_singleton p)).mpr fun q => ?_)
  rw [List.mem_filter, List.mem_singleton, decide_eq_true_eq]
  constructor
  · rintro ⟨hq, hqg⟩
    exact List.inj_on_of_nodup_map hl.ids hq hp (hsole q hq hqg)
  · rintro rfl
    exact ⟨hp, hpg⟩

/-! ### Graphs with several instances -/

/-- Whatever instances do, what they are made of stays as it is. -/
theorem Doing.prototype (h : Doing e d e') (hf : e.Filed) (hu : Unregistered graph e d)
    (hg : e.graphs.get? graph = some edition) (hm : edition.graph.settings.multiInstance = true)
    {nodes : List (Node β)} (hs : e.parked.get? graph = some nodes) :
    e'.parked.get? graph = some nodes := by
  by_cases hspawn : d = .spawn graph
  · subst hspawn
    cases h with
    | spawn hspawned =>
      rcases equips_of_spawn hg hspawned with ⟨rfl, -⟩ | ⟨-, -, p, hp⟩
      · exact hs
      · rw [hp.parked, if_pos hm, hp.shelved nodes hs]
  · refine (h.get?_parked ⟨hu, hspawn⟩ fun _ p hp hshelves => ?_).trans hs
    -- One of several instances leaves nothing behind.
    obtain ⟨hsingle, hpg, edition', hg', hn⟩ := hshelves
    obtain rfl := Option.some.inj (hg.symm.trans hg')
    rw [hf.current p hp edition (hpg ▸ hg) hn, hm] at hsingle
    simp at hsingle

theorem Does.prototype (hd : Does (Unregistered graph) e e') (hf : e.Filed)
    (hg : e.graphs.get? graph = some edition) (hm : edition.graph.settings.multiInstance = true)
    {nodes : List (Node β)} (hs : e.parked.get? graph = some nodes) :
    e'.parked.get? graph = some nodes := by
  induction hd with
  | refl => exact hs
  | tail hfirst hone ih =>
    obtain ⟨d, hu, hdoing⟩ := hone
    exact hdoing.prototype (hf.does hfirst) hu ((Does.get?_graphs hfirst).trans hg) hm ih

/-! ### Before the first instance -/

/-- Until a graph that has been registered is given an instance, nothing is on the shelf for it. -/
theorem get?_parked_of_unserved {template : Graph} (hl : e.Linked) (hf : e.Filed)
    (hd : Does (Unserved template.id) (e.register template) e') :
    e'.parked.get? template.id = none := by
  -- Instances that there are leave nothing behind either, since they are of earlier editions.
  let fresh (a : Engine β) : Prop :=
    a.graphs.get? template.id = some ⟨e.nextEdition, template⟩ ∧
      (∀ p ∈ a.instances, p.graph = template.id → p.edition ≠ some e.nextEdition) ∧
      a.parked.get? template.id = none
  have hregistered : fresh (e.register template) := by
    refine ⟨(Table.get?_insert ..).trans (if_pos rfl), fun p hp _ hnow => ?_,
      (Table.get?_erase ..).trans (if_pos rfl)⟩
    obtain ⟨number, hlt, hdated⟩ := hf.dated p hp
    obtain rfl := Option.some.inj (hdated.symm.trans hnow)
    exact absurd hlt (Nat.lt_irrefl _)
  have hlater : fresh e' :=
    hd.invariant_of_filed (I := fresh) (hl.step (.register template)) (hf.register template)
      hregistered fun a b d _ ha hfresh hu hdoing => by
        obtain ⟨hg, hold, hnone⟩ := hfresh
        refine ⟨(hdoing.get?_graphs hu.1).trans hg, fun q hq hqg => ?_, ?_⟩
        · obtain ⟨p, hp, hsame⟩ := hdoing.mem_of_unserved ha hu hq hqg
          rw [hsame.edition]
          exact hold p hp (hsame.graph.symm.trans hqg)
        · refine (hdoing.get?_parked hu fun _ p hp hshelves => ?_).trans hnone
          obtain ⟨-, hpg, edition, hg', hn⟩ := hshelves
          obtain rfl := Option.some.inj (hg.symm.trans hg')
          exact hold p hp hpg hn
  exact hlater.2.2

/-! ### Who changes the behaviours of an instance -/

omit [Behaviour β] in
theorem prepare_of_kinds (h : e'.kinds = e.kinds) (template : Graph) :
    e'.prepare template = e.prepare template := by
  have hnode : e'.prepareNode = e.prepareNode := by
    funext node
    unfold prepareNode
    rw [h]
  unfold prepare
  rw [hnode]

/-- What a behaviour has come to only changes when its instance does something. -/
theorem Doing.behaviours (h : Doing e d e') (ht : e.Tables) {p q : Playback β}
    (hp : p ∈ e.instances) (hq : q ∈ e'.instances) (hid : q.id = p.id)
    (hne : ∀ op, d ≠ .act p op) : q.nodes.map (·.behaviour) = p.nodes.map (·.behaviour) := by
  have hold : q ∈ e.instances → q.nodes.map (·.behaviour) = p.nodes.map (·.behaviour) := by
    intro hq
    rw [List.inj_on_of_nodup_map ht.ids hq hp hid]
  have hself : ∀ {p₀ : Playback β}, e.instance? p₀.id = some p₀ → p₀.SameMake q → p₀ = p :=
    fun hp₀ hsame => List.inj_on_of_nodup_map ht.ids (mem_instances_of_instance? hp₀) hp
      (hsame.id.symm.trans hid)
  cases h.instances with
  | same heq => exact hold (heq ▸ hq)
  | @acted p₀ _ op hd hdid heq =>
    rcases mem_instances_put (heq ▸ hq) with rfl | ⟨hq, -⟩
    · obtain rfl := hself hdid.instance? hdid.sameMake
      exact absurd hd (hne op)
    · exact hold hq
  | changed hp₀ hstays hbehaviours heq =>
    rcases mem_instances_put (heq ▸ hq) with rfl | ⟨hq, -⟩
    · rw [← hself hp₀ hstays.toSameMake]
      exact hbehaviours
    · exact hold hq
  | made hmade heq =>
    rcases List.mem_append.mp (heq ▸ hq) with hq | hq
    · exact hold hq
    · -- The id of an instance that is made has not been given out before.
      rw [List.mem_singleton.mp hq, hmade.id] at hid
      exact absurd hid.symm (Nat.ne_of_lt (ht.fresh p hp))
  | gone _ heq => exact hold (List.mem_of_mem_filter (heq ▸ hq))

/-! ### All together -/

omit [Behaviour β] in
/-- The graph has one instance, and nothing is on the shelf for it. -/
def InUse (graph : String) (e : Engine β) : Prop :=
  (∃ p, e.instances.filter (·.graph = graph) = [p]) ∧ e.parked.get? graph = none

/-- The graph has no instance. What the last one has left behind is on the shelf, and the next one
is made of it. -/
def OnShelf (graph : String) (e₁ e : Engine β) : Prop :=
  e.instances.filter (·.graph = graph) = [] ∧
    ∃ nodes, e.parked.get? graph = some nodes ∧ LeftBehind graph nodes e₁ e ∧
      ∀ e' id, e.spawn graph = .ok (e', id) → ∃ p ∈ e'.instances, p.id = id ∧ p.nodes = nodes

theorem Custody.xor (h : Custody graph edition.number e₁ e) (hl : e.Linked)
    (hg : e.graphs.get? graph = some edition) : Xor (InUse graph e) (OnShelf graph e₁ e) := by
  cases h with
  | @inUse p hp hpg hn hsole hs =>
    have hfilter := filter_graph_eq hl.tables hp hpg hsole
    refine Or.inl ⟨⟨⟨p, hfilter⟩, hs⟩, fun hshelf => ?_⟩
    simp [hshelf.1] at hfilter
  | @onShelf nodes hnone hs hleft =>
    have hfilter : e.instances.filter (·.graph = graph) = [] :=
      List.filter_eq_nil_iff.mpr fun q hq => by simpa using hnone q hq
    refine Or.inr ⟨⟨hfilter, nodes, hs, hleft, fun e' id hspawn => ?_⟩, fun huse => ?_⟩
    · rcases equips_of_spawn hg hspawn with ⟨-, -, q, hq, hqg, -⟩ | ⟨-, hid, p, hp⟩
      · exact absurd hqg (hnone q hq)
      · exact ⟨p, hp.mem, hp.id.trans hid.symm, hp.shelved nodes hs⟩
    · obtain ⟨⟨p, hp⟩, -⟩ := huse
      simp [hfilter] at hp

/-- Operations that do not register a graph are deeds that do not. -/
theorem does_unregistered (h : e.Linked)
    (hl : Later (fun op => ∀ template, op = .register template → template.id ≠ graph) e e') :
    Does (Unregistered graph) e e' := by
  refine (h.does_later hl).mono fun _ d hd template htemplate => ?_
  obtain ⟨op, hkind, hadmits⟩ := hd
  subst htemplate
  exact hkind template hadmits

theorem does_spawn {id : Nat} (hs : e.spawn graph = .ok (e', id)) :
    Does (Unregistered graph) e e' :=
  (Doing.spawn hs).does (by simp [Unregistered])

/-- Once a graph with a single instance has been given one, its nodes are in use or on the shelf. -/
theorem xor_of_spawn {id : Nat} (hl : e.Linked) (hf : e.Filed) (hsingle : e.IsSingle graph)
    (hnew : e.instance? id = none) (hs : e.spawn graph = .ok (e₁, id))
    (hd : Does (Unregistered graph) e₁ e₂) : Xor (InUse graph e₂) (OnShelf graph e₁ e₂) := by
  obtain ⟨edition, hg, hm⟩ := hsingle
  have hl₁ := hl.does (does_spawn hs)
  have hg₁ := (Does.get?_graphs (does_spawn hs)).trans hg
  rcases equips_of_spawn hg hs with ⟨-, -, p, hp, -, rfl⟩ | ⟨hneeds, -, p, hp⟩
  · simp [hl.tables.instance?_eq_some hp] at hnew
  · have hcustody := hd.custody (hp.custody hg hm hneeds hf) hl₁ (hf.does (does_spawn hs)) hg₁ hm
    exact hcustody.xor (hl₁.does hd) ((Does.get?_graphs hd).trans hg₁)

/-- Once a graph with several instances has been given one, all others are made as it was. -/
theorem prototype_of_spawn {id : Nat} (hl : e.Linked) (hf : e.Filed)
    (hg : e.graphs.get? graph = some edition) (hm : edition.graph.settings.multiInstance = true)
    (hs : e.spawn graph = .ok (e₁, id)) :
    ∃ nodes, (e.parked.get? graph = none →
        ∀ a : Engine β, a.kinds = e.kinds → nodes = (a.prepare edition.graph).1) ∧
      ∀ e₂, Does (Unregistered graph) e₁ e₂ → e₂.parked.get? graph = some nodes ∧
        ∀ e₃ id₃, e₂.spawn graph = .ok (e₃, id₃) → e₂.instance? id₃ = none ∧
          ∃ p ∈ e₃.instances, p.id = id₃ ∧ p.nodes = nodes := by
  have hl₁ := hl.does (does_spawn hs)
  have hg₁ := (Does.get?_graphs (does_spawn hs)).trans hg
  rcases equips_of_spawn hg hs with ⟨-, hsingle, -⟩ | ⟨-, -, p, hp⟩
  · simp [hm] at hsingle
  · refine ⟨p.nodes, fun hempty a ha => ?_, fun e₂ hd => ?_⟩
    · rw [prepare_of_kinds ha]
      exact hp.prepared hempty
    · have hparked := Does.prototype hd (hf.does (does_spawn hs)) hg₁ hm
        (hp.parked.trans (if_pos hm))
      refine ⟨hparked, fun e₃ id₃ hs₃ => ?_⟩
      rcases equips_of_spawn ((Does.get?_graphs hd).trans hg₁) hs₃ with
        ⟨-, hsingle, -⟩ | ⟨-, hid, q, hq⟩
      · simp [hm] at hsingle
      · refine ⟨List.find?_eq_none.mpr fun r hr => ?_, q, hq.mem, hq.id.trans hid.symm,
          hq.shelved _ hparked⟩
        -- An id that is given out is a new one.
        have hlt := (hl₁.does hd).tables.fresh r hr
        simpa [hid] using Nat.ne_of_lt hlt

/-- At any point: a graph with a single instance that has been given one, and is not registered
again, has either one instance and nothing on the shelf, or no instance and on the shelf what the
last one had when it went, which the next one is made of. Of a graph with several instances there is
on the shelf what has been prepared for the first one, for as long as the graph is not registered
again, and every instance is a new one and begins with it; before the first one nothing is on the
shelf. Behaviours only change when their instances do something. No operation registers a graph
again but the one that is for that. -/
theorem nodes_in_one_place {e₀ e : Engine β} (h : e₀.Handled) (hd : Does (fun _ _ => True) e₀ e)
    (graph : String) :
    (e.IsSingle graph → ∀ e₁ id, e.instance? id = none → e.spawn graph = .ok (e₁, id) →
      ∀ e₂, Does (Unregistered graph) e₁ e₂ → Xor (InUse graph e₂) (OnShelf graph e₁ e₂)) ∧
    (∀ edition, e.graphs.get? graph = some edition →
      edition.graph.settings.multiInstance = true → ∀ e₁ id, e.spawn graph = .ok (e₁, id) →
      ∃ nodes, (e.parked.get? graph = none →
          ∀ a : Engine β, a.kinds = e.kinds → nodes = (a.prepare edition.graph).1) ∧
        ∀ e₂, Does (Unregistered graph) e₁ e₂ → e₂.parked.get? graph = some nodes ∧
          ∀ e₃ id₃, e₂.spawn graph = .ok (e₃, id₃) → e₂.instance? id₃ = none ∧
            ∃ p ∈ e₃.instances, p.id = id₃ ∧ p.nodes = nodes) ∧
    (∀ template e₁, template.id = graph → Does (Unserved graph) (e.register template) e₁ →
      e₁.parked.get? graph = none) ∧
    (∀ d e' p q, Doing e d e' → p ∈ e.instances → q ∈ e'.instances → q.id = p.id →
      (∀ op, d ≠ .act p op) → q.nodes.map (·.behaviour) = p.nodes.map (·.behaviour)) ∧
    (∀ e', Later (fun op => ∀ template, op = .register template → template.id ≠ graph) e e' →
      Does (Unregistered graph) e e') := by
  have hl := h.linked.does hd
  have hf := h.filed.does hd
  refine ⟨fun hsingle e₁ id hnew hs e₂ hd₂ => xor_of_spawn hl hf hsingle hnew hs hd₂,
    fun edition hg hm e₁ id hs => prototype_of_spawn hl hf hg hm hs, ?_,
    fun d e' p q hdoing hp hq hid hne => hdoing.behaviours hl.tables hp hq hid hne,
    fun e' => does_unregistered hl⟩
  rintro template e₁ rfl hd₁
  exact get?_parked_of_unserved hl hf hd₁

/-- The circle, with as many instances as are asked for. -/
def circles : Graph := { circle with settings := { circle.settings with multiInstance := true } }

/-- The nodes of the circle are in use once it has been given an instance, and on the shelf once the
instance has been killed. With several instances the second one begins with what has been prepared
for the first one, even if that has been killed meanwhile. -/
theorem nodes_in_one_place_circle :
    (∃ e₁ : Engine Builtin, ((ofKinds {} [echo]).register circle).spawn "circle" = .ok (e₁, 0) ∧
      InUse "circle" e₁ ∧ OnShelf "circle" e₁ (e₁.killOne 0)) ∧
    ∃ e₁ e₂ : Engine Builtin,
      ((ofKinds {} [echo]).register circles).spawn "circle" = .ok (e₁, 0) ∧
      (e₁.killOne 0).spawn "circle" = .ok (e₂, 1) ∧
      ∃ p ∈ e₂.instances, p.id = 1 ∧ p.nodes = ((ofKinds {} [echo]).prepare circles).1 := by
  have hkill : ∀ e₁ : Engine Builtin, Does (Unregistered "circle") e₁ (e₁.killOne 0) := by
    intro e₁
    have hprompted : Does (Prompted fun _ _ => True) e₁ (e₁.killOne 0) := does_killOne e₁ 0
    exact hprompted.mono fun _ d hd template htemplate => by simp [htemplate, Prompted] at hd
  constructor
  · have hspawn : ∃ e₁ : Engine Builtin,
        ((ofKinds {} [echo]).register circle).spawn "circle" = .ok (e₁, 0) ∧
          e₁.parked.get? "circle" = none ∧ (e₁.killOne 0).instances = [] := ⟨_, rfl, rfl, rfl⟩
    obtain ⟨e₁, hs, hempty, hnone⟩ := hspawn
    have hreachable : Reachable (fun _ => True) ((ofKinds {} [echo]).register circle) :=
      (Reachable.start {} [echo]).register circle trivial
    obtain ⟨hsingle, -⟩ := nodes_in_one_place hreachable.handled .refl "circle"
    have hxor := hsingle ⟨_, rfl, rfl⟩ e₁ 0 rfl hs
    refine ⟨e₁, hs, (hxor e₁ .refl).or.resolve_right fun hshelf => ?_,
      (hxor _ (hkill e₁)).or.resolve_left fun huse => ?_⟩
    · obtain ⟨-, nodes, hnodes, -⟩ := hshelf
      simp [hempty] at hnodes
    · obtain ⟨⟨p, hp⟩, -⟩ := huse
      simp [hnone] at hp
  · have hspawns : ∃ e₁ e₂ : Engine Builtin,
        ((ofKinds {} [echo]).register circles).spawn "circle" = .ok (e₁, 0) ∧
          (e₁.killOne 0).spawn "circle" = .ok (e₂, 1) := ⟨_, _, rfl, rfl⟩
    obtain ⟨e₁, e₂, hs₁, hs₂⟩ := hspawns
    have hreachable : Reachable (fun _ => True) ((ofKinds {} [echo]).register circles) :=
      (Reachable.start {} [echo]).register circles trivial
    obtain ⟨-, hmany, -⟩ := nodes_in_one_place hreachable.handled .refl "circle"
    obtain ⟨nodes, hprepared, hlater⟩ := hmany _ rfl rfl e₁ 0 hs₁
    obtain ⟨-, hnext⟩ := hlater _ (hkill e₁)
    obtain ⟨-, p, hp, hid, hnodes⟩ := hnext e₂ 1 hs₂
    exact ⟨e₁, e₂, hs₁, hs₂, p, hp, hid, hnodes.trans (hprepared rfl _ rfl)⟩

end Cutscene.Engine
