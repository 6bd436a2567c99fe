import Cutscene.Proofs.Behaviour.Accepted
import Cutscene.Proofs.Engine.Faithful

/-!
# Nodes that an engine has accepted

An engine judges a graph by the kinds that it knows, and makes nodes of it by the same kinds. If the
kinds stay what they are (`Engine.Confined`), then which nodes of an instance are passed over is
settled by its graph (`Confined.furnished`), and with the built-in kinds the nodes of a graph that
has been accepted are run, apart from those that are switched off and from messages with a level
that there is not.
-/

namespace Cutscene

variable {β : Type}

/-- The node is of a kind in the table which makes a behaviour of its params. -/
def Graph.Node.isPreparable (kinds : Table (NodeKind β)) (node : Graph.Node) : Bool :=
  match kinds.get? node.kind with
  | some kind => (kind.prepare node.params).isOk
  | none => false

/-- The node gives a message at a level that messages do not have. -/
def Graph.Node.isMisleveled (node : Graph.Node) : Bool :=
  node.kind = "log" && Message.isMisleveled node.params

namespace Engine

theorem isSome_prepareNode (e : Engine β) (node : Graph.Node) :
    (e.prepareNode node).1.behaviour.isSome = node.isPreparable e.kinds := by
  unfold prepareNode Graph.Node.isPreparable
  dsimp only
  cases e.kinds.get? node.kind with
  | none => rfl
  | some kind =>
    dsimp only
    cases kind.prepare node.params <;> rfl

theorem isRunnable_prepareNode (e : Engine β) (node : Graph.Node) :
    (e.prepareNode node).1.isRunnable = (node.enabled && node.isPreparable e.kinds) := by
  have henabled : (e.prepareNode node).1.enabled = node.enabled := by
    unfold prepareNode
    dsimp only
    split
    · rfl
    · split <;> rfl
  rw [Node.isRunnable, henabled, isSome_prepareNode]

/-- Every node of a graph that is accepted is of a kind that is known and accepts its params. -/
theorem exists_kind_of_validate {e : Engine β} {graph : Graph} (h : e.validate graph = .ok ())
    {node : Graph.Node} (hn : node ∈ graph.nodes) :
    ∃ kind, e.kinds.get? node.kind = some kind ∧ kind.validate node.params = .ok () := by
  have hall : ∀ (nodes : List Graph.Node) (index : Nat),
      e.validateFrom graph.id index nodes = .ok () → node ∈ nodes →
      ∃ kind, e.kinds.get? node.kind = some kind ∧ kind.validate node.params = .ok () := by
    intro nodes
    induction nodes with
    | nil => exact fun _ _ hmem => absurd hmem List.not_mem_nil
    | cons first rest ih =>
      intro index hvalid hmem
      rw [validateFrom] at hvalid
      cases hkind : e.kinds.get? first.kind with
      | none => simp [hkind] at hvalid
      | some kind =>
        cases hparams : kind.validate first.params with
        | error reason => simp [hkind, hparams] at hvalid
        | ok =>
          simp only [hkind, hparams] at hvalid
          rcases List.mem_cons.mp hmem with rfl | hmem
          · exact ⟨kind, hkind, hparams⟩
          · exact ih (index + 1) hvalid hmem
  exact hall graph.nodes 0 h hn

/-! ### Kinds that stay what they are -/

/-- A kind is known under its own name, and is one of those that the engine was told of. -/
theorem mem_of_get?_ofKinds {config : Config} {kinds : List (NodeKind β)} {name : String}
    {kind : NodeKind β} (h : (ofKinds config kinds).kinds.get? name = some kind) :
    kind ∈ kinds ∧ kind.name = name := by
  have hfold : ∀ (kinds : List (NodeKind β)) (t : Table (NodeKind β)),
      (kinds.foldl (fun t k => t.insert k.name k) t).get? name = some kind →
      (kind ∈ kinds ∧ kind.name = name) ∨ t.get? name = some kind := by
    intro kinds
    induction kinds with
    | nil => exact fun _ hget => Or.inr hget
    | cons first rest ih =>
      intro t hget
      rcases ih _ hget with ⟨hmem, hname⟩ | hget
      · exact Or.inl ⟨List.mem_cons_of_mem _ hmem, hname⟩
      · rw [Table.get?_insert] at hget
        split_ifs at hget with hfirst
        · obtain rfl := Option.some.inj hget
          exact Or.inl ⟨List.mem_cons_self, hfirst.symm⟩
        · exact Or.inr hget
  rcases hfold kinds {} h with hkind | hnone
  · exact hkind
  · simp [Table.get?] at hnone

variable [Behaviour β] {e e' : Engine β} {kinds : List (NodeKind β)}

/-- The engines that a host can come by that makes some kinds of nodes known to begin with, and no
others later on. -/
inductive Confined (kinds : List (NodeKind β)) : Engine β → Prop
  | start (config : Config) : Confined kinds (ofKinds config kinds)
  | perform {e e' : Engine β} (h : Confined kinds e) {fuel : Nat} {op : Operation β}
    (hop : ∀ kind, op ≠ .addKind kind) (hr : e.perform fuel op = some e') : Confined kinds e'
  | clear {e : Engine β} (h : Confined kinds e) (id : Nat) :
    Confined kinds (e.modifyInstance id fun p => (p.clearBranches, []))

theorem Confined.handled (h : e.Confined kinds) : e.Handled := by
  induction h with
  | start config => exact .start config kinds
  | perform _ _ hr ih => exact ih.perform hr
  | clear _ id ih => exact ih.clear id

/-- A deed that allows nothing new leaves the kinds what they are. -/
theorem Doing.kinds_eq {d : Deed β} (h : Doing e d e') (hd : d ≠ .allow) : e'.kinds = e.kinds := by
  cases h with
  | allow => exact absurd rfl hd
  | spawn hs =>
    rcases spawn_cases hs with ⟨rfl, -⟩ | ⟨edition, nodes, notices, parked, -, -, -, -, heq⟩
    · rfl
    · obtain rfl : e' = _ := congrArg Prod.fst heq
      rfl
  | @retire keep gone =>
    unfold retired
    rw [foldl_park_eq]
  | _ => rfl

/-- What the kinds make of nodes shows in the instances. -/
structure Furnished (table : Table (NodeKind β)) (e : Engine β) : Prop where
  kinds : e.kinds = table
  nodes : e.Matches (fun n => n.isRunnable) fun node => node.enabled && node.isPreparable table

variable {table : Table (NodeKind β)}

theorem Furnished.doing {d : Deed β} (h : e.Furnished table) (hl : e.Linked) (hf : e.Filed)
    (hd : d ≠ .allow) (hdoing : Doing e d e') : e'.Furnished table where
  kinds := (hdoing.kinds_eq hd).trans h.kinds
  nodes := h.nodes.doing Node.fixed_isRunnable hl hf hdoing fun _ _ node => by
    rw [isRunnable_prepareNode, h.kinds]

theorem Furnished.does (h : e.Furnished table) (hl : e.Linked) (hf : e.Filed)
    (hd : Does (fun _ d => d ≠ .allow) e e') : e'.Furnished table :=
  hd.invariant_of_filed hl hf h fun _ _ _ hl hf he hne hdoing => he.doing hl hf hne hdoing

/-- Whether a graph may be triggered has nothing to do with its nodes. -/
theorem Furnished.perform (h : e.Furnished table) (hl : e.Linked) (hf : e.Filed) {fuel : Nat}
    {op : Operation β} (hop : ∀ kind, op ≠ .addKind kind) (hr : e.perform fuel op = some e') :
    e'.Furnished table := by
  cases hs : op.isSetting with
  | false =>
    refine h.does hl hf ((hl.does_brings hr).mono fun _ d hbrings hallow => ?_)
    simp [hbrings.2 hallow] at hs
  | true =>
    cases op with
    | addKind kind => exact absurd rfl (hop kind)
    | setEnabled graph on =>
      obtain rfl := Option.some.inj hr
      exact ⟨h.kinds, h.nodes.mono rfl rfl fun _ hp => hp⟩
    | _ => simp [Operation.isSetting] at hs

/-- Whatever a host does, which nodes of an instance are passed over is settled by its graph. -/
theorem Confined.furnished (h : e.Confined kinds) :
    e.Furnished (ofKinds {} kinds).kinds := by
  induction h with
  | start config => exact ⟨rfl, matches_ofKinds config kinds⟩
  | perform h hop hr ih => exact ih.perform h.handled.linked h.handled.filed hop hr
  | @clear e h id ih =>
    exact ih.does h.handled.linked h.handled.filed
      (does_modifyInstance (d := .clear) (by simp) id fun p hp => .clear hp)

/-! ### Instances later on -/

/-- No deed changes what is fixed about the nodes of an instance. -/
theorem Doing.traits_eq {κ : Type} {trait : Node β → κ} {d : Deed β} (h : Doing e d e')
    (hfixed : Node.Fixed trait) (hl : e.Linked) {p q : Playback β} (hp : p ∈ e.instances)
    (hq : q ∈ e'.instances) (hid : q.id = p.id) : q.nodes.map trait = p.nodes.map trait := by
  have hlasting := hfixed.toLasting
  have hfound := hl.tables.instance?_eq_some hp
  have hold : q ∈ e.instances → q.nodes.map trait = p.nodes.map trait := by
    intro hq
    have hsame := hl.tables.instance?_eq_some hq
    rw [hid, hfound] at hsame
    rw [Option.some.inj hsame]
  have hput : ∀ {p' : Playback β} {r : Playback β × World β}, e.instance? p'.id = some p' →
      q ∈ (e.put r).instances → r.1.id = p'.id → r.1.nodes.map trait = p'.nodes.map trait →
      q.nodes.map trait = p.nodes.map trait := by
    intro p' r hp' hq hrid hr
    rcases mem_instances_put hq with rfl | ⟨hq, -⟩
    · rw [← hrid, hid, hfound] at hp'
      rw [hr, ← Option.some.inj hp']
    · exact hold hq
  cases h with
  | @act p' hp' parameters conversation _ _ _ r _ hr =>
    have hnot := hl.notSkipping p' (mem_instances_of_instance? hp')
    exact hput hp' hq (congrArg Playback.Identity.id (Playback.identity_perform hr))
      (Playback.traits_perform (p := { p' with parameters, conversation }) hfixed hnot hr)
  | brief hp' => exact hput hp' hq rfl rfl
  | @forget p' hp' => exact hput hp' hq rfl (Playback.traits_forgetChoices hlasting p')
  | @clear p' hp' => exact hput hp' hq rfl (Playback.traits_clearBranches hlasting p')
  | @reset p' hp' =>
    exact hput hp' hq (congrArg Playback.Identity.id p'.identity_halt)
      (Playback.traits_halt hlasting p')
  | spawn hs =>
    rcases spawn_cases hs with ⟨rfl, -⟩ | ⟨edition, nodes, notices, parked, -, -, -, -, heq⟩
    · exact hold hq
    · obtain rfl : e' = _ := congrArg Prod.fst heq
      rcases List.mem_append.mp hq with hq | hq
      · exact hold hq
      · -- No instance had the id of the new one.
        have hlt := hl.tables.fresh p hp
        rw [← hid, List.mem_singleton.mp hq] at hlt
        exact absurd hlt (Nat.lt_irrefl _)
  | @retire keep gone =>
    rw [retired, (foldl_park_instances _ gone).1] at hq
    exact hold (List.mem_of_mem_filter hq)
  | _ => exact hold hq

/-- Whatever is done to an engine, what is fixed about the nodes of an instance stays. -/
theorem Does.traits_eq {κ : Type} {trait : Node β → κ} {allowed : Engine β → Deed β → Prop}
    (h : Does allowed e e') (hfixed : Node.Fixed trait) (hl : e.Linked) {p q : Playback β}
    (hp : p ∈ e.instances) (hq : q ∈ e'.instances) (hid : q.id = p.id) :
    q.nodes.map trait = p.nodes.map trait := by
  induction h generalizing q with
  | refl =>
    have hsame := hl.tables.instance?_eq_some hq
    rw [hid, hl.tables.instance?_eq_some hp] at hsame
    rw [Option.some.inj hsame]
  | @tail a b hfirst hone ih =>
    obtain ⟨d, -, hdoing⟩ := hone
    -- The instance was there before the last deed, as its id has been given out long ago.
    have hlt : q.id < a.nextId :=
      hid ▸ Nat.lt_of_lt_of_le (hl.tables.fresh p hp) (Does.descends hfirst).nextId
    obtain ⟨x, hx, hsame⟩ := hdoing.descends.instances q hq hlt
    exact (hdoing.traits_eq hfixed (hl.does hfirst) hx hq hsame.id).trans
      (ih hx (hsame.id ▸ hid))

/-! ### The built-in kinds -/

/-- Of a node that the built-in kinds accept a behaviour can be made, unless it gives a message at a
level that there is not. -/
theorem isPreparable_of_validate {e : Engine Builtin}
    (hk : e.kinds = (ofKinds {} Builtin.kinds).kinds) {graph : Graph}
    (hv : e.validate graph = .ok ()) {node : Graph.Node} (hn : node ∈ graph.nodes) :
    node.isPreparable e.kinds = !node.isMisleveled := by
  obtain ⟨kind, hget, haccepts⟩ := exists_kind_of_validate hv hn
  obtain ⟨hmem, hname⟩ := mem_of_get?_ofKinds (hk ▸ hget)
  have hprepare := Builtin.prepare_of_validate hmem haccepts
  rw [hname] at hprepare
  unfold Graph.Node.isPreparable Graph.Node.isMisleveled
  rw [hget]
  dsimp only
  split_ifs at hprepare with hlevel
  · obtain ⟨word, -, -, herror⟩ := hprepare
    simp [herror, hlevel.1, hlevel.2, Except.isOk, Except.toBool]
  · obtain ⟨b, hb⟩ := hprepare
    simpa [hb, Except.isOk, Except.toBool, imp_iff_not_or] using hlevel

/-- Whatever a host does that keeps to the built-in kinds: of the params that a kind accepts it
makes a behaviour, the nodes of a graph that is accepted all have one, and an instance of the graph,
from the moment it is made and at any point in an operation, does not pass over a node that is
switched on. The one exception are messages with a level that there is not: they are accepted, have
no behaviour, and are always passed over. -/
theorem runs_what_is_accepted {e : Engine Builtin} (h : e.Confined Builtin.kinds) {graph : Graph}
    (hv : e.validate graph = .ok ()) :
    (∀ kind ∈ Builtin.kinds, ∀ params, kind.validate params = .ok () →
      if kind.name = "log" ∧ Message.isMisleveled params = true then
        ∃ word, Params.string? params "level" = some word ∧ Message.level? word = none ∧
          kind.prepare params = .error (.unknownLevel word)
      else ∃ b, kind.prepare params = .ok b) ∧
    (e.prepare graph).1.map (·.behaviour.isSome) = graph.nodes.map (!·.isMisleveled) ∧
    ∀ e' e'', Does (fun _ d => d ≠ .allow) e e' → Does (fun _ _ => True) e' e'' →
      ∀ p ∈ e'.instances, ∀ number, e'.graphs.get? p.graph = some ⟨number, graph⟩ →
      p.edition = some number → ∀ q ∈ e''.instances, q.id = p.id →
      ∀ parameters conversation w op stops u,
        (({ q with parameters, conversation } : Playback Builtin).beginning w op).Works stops u →
        ∀ index node, graph.nodes[index]? = some node → node.enabled = true → u.hop.2 = true →
          if node.isMisleveled then
            u.visit index =
              u.hop.1.push { index := index + 1, step := .visit, origin := some index }
          else ∃ b, u.visit index = u.hop.1.enter index b := by
  have hfurnished := h.furnished
  have hlinked := h.handled.linked
  refine ⟨fun kind hkind params haccepts => Builtin.prepare_of_validate hkind haccepts, ?_, ?_⟩
  · simp only [prepare, List.map_map]
    refine List.map_congr_left fun node hn => ?_
    exact (e.isSome_prepareNode node).trans (isPreparable_of_validate hfurnished.kinds hv hn)
  · intro e' e'' hd hd' p hp number hget hedition q hq hid parameters conversation w op stops u hu
      index node hnode henabled hhop
    have hlinked' := hlinked.does hd
    have hnot : q.skipping = false := (hlinked'.does hd').notSkipping q hq
    -- What is passed over at this point has been passed over all along.
    have hrun : u.playback.nodes.map (·.isRunnable) = q.nodes.map (·.isRunnable) :=
      Playback.traits_works (p := { q with parameters, conversation }) Node.fixed_isRunnable hnot hu
    have hsince := hd'.traits_eq Node.fixed_isRunnable hlinked' hp hq hid
    have hmade := (hfurnished.does hlinked h.handled.filed hd).nodes.instances p hp _ hget hedition
    have hpreparable := isPreparable_of_validate hfurnished.kinds hv (List.mem_of_getElem? hnode)
    rw [hfurnished.kinds] at hpreparable
    have hrunnable := congrArg (·[index]?) ((hrun.trans hsince).trans hmade)
    simp only [List.getElem?_map, hnode, Option.map_some, henabled, Bool.true_and,
      hpreparable] at hrunnable
    obtain ⟨n, hn, hshown⟩ := Option.map_eq_some_iff.mp hrunnable
    have hhopped : u.hop.1.playback.nodes = u.playback.nodes := by
      rcases u.hop_cases with ⟨-, -, hsame, -⟩ | ⟨hover, -⟩
      · exact hsame
      · rw [hhop] at hover
        exact absurd hover (by decide)
    rw [← hhopped] at hn
    cases hlevel : node.isMisleveled with
    | true =>
      rw [hlevel] at hshown
      rw [if_pos rfl]
      exact Turn.visit_of_not_runnable hhop hn (Turn.isRunnable_eq_false hshown)
    | false =>
      rw [hlevel] at hshown
      obtain ⟨hon, hsome⟩ := Bool.and_eq_true_iff.mp hshown
      obtain ⟨b, hb⟩ := Option.isSome_iff_exists.mp hsome
      rw [if_neg (by decide)]
      exact ⟨b, Turn.visit_of_runnable hhop hn hon hb⟩

/-- A message at a level that there is not, and a comment. -/
def loud : Graph where
  id := "loud"
  name := "loud"
  nodes :=
    [{ kind := "log", params := .object [("message", .string "x"), ("level", .string "loud")] },
      { kind := "comment" }]

/-- The message is accepted, but when the graph is to run from it on, the comment is what runs. -/
theorem runs_what_is_accepted_loud : ∃ (e e' : Engine Builtin) (p : Playback Builtin)
    (u : Turn Builtin), e.validate loud = .ok () ∧ e.spawn "loud" = .ok (e', 0) ∧
    e'.instances = [p] ∧ u = p.beginning e'.world (.resume 0 [0] "" true) ∧
    (e.prepare loud).1.map (·.behaviour.isSome) = [false, true] ∧
    u.visit 0 = u.hop.1.push { index := 1, step := .visit, origin := some 0 } ∧
    ∃ b, u.visit 1 = u.hop.1.enter 1 b := by
  let e : Engine Builtin := (ofKinds {} Builtin.kinds).register loud
  have hregister : (ofKinds {} Builtin.kinds).perform 0 (.register loud) = some e := rfl
  have he : e.Confined Builtin.kinds := (Confined.start {}).perform (by simp) hregister
  have hvalid : e.validate loud = .ok () := rfl
  obtain ⟨e', p, hspawn, hinstances, hgraph, hedition, hskip⟩ : ∃ e' p,
      e.spawn "loud" = .ok (e', 0) ∧ e'.instances = [p] ∧
      e'.graphs.get? p.graph = some ⟨0, loud⟩ ∧ p.edition = some 0 ∧
      (p.beginning e'.world (.resume 0 [0] "" true)).playback.skipping = false :=
    ⟨_, _, rfl, rfl, rfl, rfl, rfl⟩
  have hp : p ∈ e'.instances := hinstances ▸ List.mem_singleton_self p
  have hhop : (p.beginning e'.world (.resume 0 [0] "" true)).hop.2 = true := by
    rw [Turn.hop_of_not_skipping hskip]
  have hd : Does (fun _ d => d ≠ .allow) e e' := (Doing.spawn hspawn).does (by simp)
  obtain ⟨-, hprepare, hruns⟩ := runs_what_is_accepted he hvalid
  have hat := hruns e' e' hd .refl p hp 0 hgraph hedition p hp rfl p.parameters p.conversation
    e'.world (.resume 0 [0] "" true) [] _ .refl
  exact ⟨e, e', p, _, hvalid, hspawn, hinstances, rfl, hprepare, hat 0 _ rfl rfl hhop,
    hat 1 _ rfl rfl hhop⟩

end Engine

end Cutscene
