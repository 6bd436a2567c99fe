import Cutscene.Proofs.Engine.Consistent
import Cutscene.Proofs.Engine.History

/-!
# Graphs that must not be triggered

Whether a graph is enabled is only asked when it is triggered, by a host or by a command. What
instances do on their own never begins a run: time passes, paused runs go on, and what is skipped
runs already. So a disabled graph is left in peace (`Engine.Spares`) by every deed that begins no
run of it (`Doing.spares`), and these are the deeds of which triggers, ticks and commands consist.
The skip queue does not ask. A record that waits in it is skipped even if its graph is disabled.
That is no new run as long as the run of the record, or another one on the instance that it gets,
still goes on when its turn comes (`Engine.FindsActive`), but it is one if it comes from a save.
-/

namespace Cutscene.Engine

variable {β : Type}

/-- No run of a graph has begun meanwhile: none was heard to begin, and an instance that is active
was active before or has been resumed. -/
structure Spares (g : String) (e e' : Engine β) : Prop where
  unheard : ∃ entries, e'.world.journal = entries ++ e.world.journal ∧
    ∀ event, .event event ∈ entries → event.graph = g → ∀ start, event.kind ≠ .began start
  runs : ∀ q ∈ e'.instances, q.graph = g → q.isActive = true →
    (∃ p ∈ e.instances, p.SameMake q ∧ p.isActive = true) ∨
      .resumed ∈ e.world.news e'.world q.id

variable {g : String} {e e' e'' : Engine β}

/-- Neither the journal nor the instances have changed. -/
theorem Spares.of_eq (hj : e'.world.journal = e.world.journal) (hi : e'.instances = e.instances) :
    Spares g e e' where
  unheard := ⟨[], hj, fun _ hevent => absurd hevent List.not_mem_nil⟩
  runs q hq _ ha := Or.inl ⟨q, hi ▸ hq, .refl q, ha⟩

theorem Spares.trans (h : Spares g e e') (h' : Spares g e' e'') : Spares g e e'' := by
  obtain ⟨entries, hj, hentries⟩ := h.unheard
  obtain ⟨more, hj', hmore⟩ := h'.unheard
  have hboth : e''.world.journal = (more ++ entries) ++ e.world.journal := by
    rw [hj', hj, List.append_assoc]
  refine ⟨⟨more ++ entries, hboth, fun event hevent => ?_⟩, fun q hq hgraph ha => ?_⟩
  · exact (List.mem_append.mp hevent).elim (hmore event) (hentries event)
  · rw [World.news_of_journal_eq hboth, List.filterMap_append, List.reverse_append]
    rcases h'.runs q hq hgraph ha with ⟨p, hp, hsame, hactive⟩ | hresumed
    · rcases h.runs p hp (hsame.graph ▸ hgraph) hactive with ⟨p₀, hp₀, hsame₀, hactive₀⟩ | hresumed
      · exact Or.inl ⟨p₀, hp₀, hsame₀.trans hsame, hactive₀⟩
      · rw [World.news_of_journal_eq hj, ← hsame.id] at hresumed
        exact Or.inr (List.mem_append_left _ hresumed)
    · rw [World.news_of_journal_eq hj'] at hresumed
      exact Or.inr (List.mem_append_right _ hresumed)

variable [Behaviour β] {d : Deed β} {fuel : Nat}

/-- A deed spares a graph if it begins no run of it. -/
theorem Doing.spares (h : Doing e d e') (hs : ∀ p ∈ e.instances, p.skipping = false)
    (hd : ∀ p op, d = .act p op → p ∈ e.instances → p.graph = g →
      ∀ start, ¬op.Opens p (.began start)) : Spares g e e' := by
  obtain ⟨entries, hj, hsays⟩ := h.hears hs
  refine ⟨⟨entries, hj, ?_⟩, fun q hq hgraph ha => ?_⟩
  · intro event hevent heg start hbegan
    obtain ⟨p, op, hact, hp, -, hpg, hopens⟩ := hsays event hevent
    rw [hbegan] at hopens
    exact hd p op hact (mem_instances_of_instance? hp) (hpg.symm.trans heg) start (hopens rfl)
  · rcases h.mem_instances hq with ⟨p, op, hact, hdid⟩ | ⟨p, hp, hstays⟩ | hmade
    · -- The instance has done something, so it was active before or is heard to take up a run.
      have hsame := hdid.sameMake
      have hp := mem_instances_of_instance? hdid.instance?
      obtain ⟨parameters, conversation, notices, fuel, hr⟩ := hdid.result
      rcases Playback.isActive_perform hdid.isReset hr ha with hactive | ⟨kind, hkind, hopening⟩
      · exact Or.inl ⟨p, hp, hsame, hactive⟩
      · have hnews : kind ∈ e.world.news e'.world p.id := by
          rwa [World.news, (e.world.quiet_noticeAll notices).events] at hkind
        rw [World.news_of_journal_eq hj] at hnews
        obtain ⟨event, hevent, hpid, rfl⟩ := World.mem_kindsFor.mp hnews
        obtain ⟨p', op', hact', -, -, -, hopens⟩ := hsays event hevent
        obtain ⟨rfl, rfl⟩ := Deed.act.inj (hact.symm.trans hact')
        cases hkind : event.kind with
        | began start =>
          rw [hkind] at hopens
          exact absurd (hopens rfl) (hd p op hact hp (hsame.graph ▸ hgraph) start)
        | resumed =>
          refine Or.inr ?_
          rw [World.news_of_journal_eq hj, hsame.id]
          exact World.mem_kindsFor.mpr ⟨event, hevent, hpid, hkind⟩
        | _ => simp [hkind, Event.Kind.isOpening] at hopening
    · exact Or.inl ⟨p, hp, hstays.toSameMake, hstays.active ha⟩
    · simp [Playback.isActive, hmade.phase] at ha

/-- What commands bring about spares a graph of which no instance may begin a run. -/
theorem Does.spares {begins : Engine β → Nat → Prop} (hd : Does (Ordinary begins) e e')
    (hl : e.Linked)
    (hb : ∀ a, Does (Ordinary begins) e a → ∀ p ∈ a.instances, begins a p.id → p.graph ≠ g) :
    Spares g e e' := by
  induction hd with
  | refl => exact .of_eq rfl rfl
  | @tail a b hfirst hone ih =>
    obtain ⟨d, hallowed, hdoing⟩ := hone
    refine ih.trans (hdoing.spares (hl.does hfirst).notSkipping ?_)
    rintro p op rfl hp hgraph start hopens
    rcases hallowed with hprompted | hpass
    · exact hb a hfirst p hp (hprompted ⟨start, hopens⟩) hgraph
    · simp at hpass

/-! ### Who is triggered -/

omit [Behaviour β] in
/-- An instance serves the graph that it belongs to. -/
theorem Serves.graph_eq (hl : e.Linked) (hf : e.Filed) {graph : String} {p : Playback β}
    (h : e.Serves graph p.id) (hp : p ∈ e.instances) : p.graph = graph := by
  obtain ⟨q, hq, hid, hgraph⟩ := h
  obtain rfl : q = p := List.inj_on_of_nodup_map hl.tables.ids hq hp hid
  rcases hgraph with hgraph | ⟨edition, hget, hgraph⟩
  · exact hgraph
  · exact hgraph.trans (hf.titled graph edition hget)

omit [Behaviour β] in
/-- A graph that is triggered is enabled. -/
theorem Triggered.graph_ne (hl : e.Linked) (hf : e.Filed) (hg : e.isEnabled g = false)
    {p : Playback β} (h : e.Triggered p.id) (hp : p ∈ e.instances) : p.graph ≠ g := by
  obtain ⟨graph, henabled, hserves⟩ := h
  rw [hserves.graph_eq hl hf hp]
  rintro rfl
  simp [hg] at henabled

/-- Commands enable no graph. -/
theorem Does.disabled_eq {begins : Engine β → Nat → Prop} (h : Does (Ordinary begins) e e') :
    e'.disabled = e.disabled :=
  h.invariant (I := fun a => a.disabled = e.disabled) rfl fun a b d ha hallowed hdoing => by
    refine Eq.trans ?_ ha
    cases hdoing with
    | spawn hs => exact disabled_spawn hs
    | retire =>
      unfold retired
      rw [foldl_park_eq]
    | allow => simp [Ordinary, Prompted] at hallowed
    | _ => rfl

theorem Does.isEnabled_eq {begins : Engine β → Nat → Prop} (h : Does (Ordinary begins) e e') :
    e'.isEnabled g = e.isEnabled g := by
  unfold isEnabled
  rw [h.disabled_eq]

/-- What the triggers of others bring about spares a graph that is disabled. -/
theorem Does.spares_of_triggered (hd : Does (Ordinary Triggered) e e') (hl : e.Linked)
    (hf : e.Filed) (hg : e.isEnabled g = false) : Spares g e e' := by
  refine hd.spares hl fun a ha p hp htriggered => ?_
  exact htriggered.graph_ne (hl.does ha) (hf.does ha) (ha.isEnabled_eq.trans hg) hp

/-! ### What waits to be skipped -/

omit [Behaviour β] in
/-- A request is for an instance that is there: for its own or, if that one is not there, for the
one that its graph has got and no other is made. -/
def IsFor (e : Engine β) (request : SkipRequest) (id : Nat) : Prop :=
  request.playback = some id ∨
    (∀ own, request.playback = some own → e.instance? own = none) ∧
      e.spawn request.graph = .ok (e, id)

/-- Each request for the graph finds an instance active when its turn comes. -/
def FindsActive (g : String) (fuel : Nat) : Engine β → List SkipRequest → Prop
  | _, [] => True
  | e, request :: rest =>
    (request.graph = g →
      ∃ id p, e.IsFor request id ∧ e.instance? id = some p ∧ p.isActive = true) ∧
    ∀ e₁ e₂, e.skipRequested fuel request = some e₁ → e₁.flushAll fuel = some e₂ →
      FindsActive g fuel e₂ rest

omit [Behaviour β] in
/-- A request for an instance is for its graph. -/
theorem Linked.graph_of_request (hl : e.Linked) {request : SkipRequest}
    (hr : request ∈ e.world.registry.takeQueue.1) {id : Nat} (hid : request.playback = some id) :
    ∃ p ∈ e.instances, p.id = id ∧ p.graph = request.graph := by
  obtain ⟨r, hmem, -, rfl⟩ := Registry.mem_takeQueue hr
  obtain ⟨p, hp, rfl⟩ := hl.tables.named id (Registry.mem_attached.mpr ⟨r, hmem, hid⟩)
  have hrecord := (Registry.record?_eq_some_iff hl.tables.single).mpr ⟨hmem, hid⟩
  exact ⟨p, hp, rfl, ((hl.linked p hp).graph r hrecord).symm⟩

/-- To skip an instance that is active begins no run. -/
theorem spares_skipRequested_of_isFor (hs : ∀ p ∈ e.instances, p.skipping = false)
    {request : SkipRequest} {id : Nat} {p : Playback β} (hfor : e.IsFor request id)
    (hp : e.instance? id = some p) (hactive : p.isActive = true)
    (h : e.skipRequested fuel request = some e') : Spares g e e' := by
  rcases skipRequested_cases h with ⟨error, -, rfl⟩ | ⟨e₁, id₁, p₁, r, htarget, hp₁, hr, rfl⟩
  · exact (Doing.note [.cannotSkip]).spares hs fun _ _ hact => nomatch hact
  · -- The instance that is skipped is the one that the request is for.
    obtain ⟨rfl, rfl⟩ : e₁ = e ∧ id₁ = id := by
      rcases htarget with ⟨hown, rfl⟩ | ⟨hnone, hspawn⟩
      · rcases hfor with hid | ⟨hnone, -⟩
        · exact ⟨rfl, Option.some.inj (hown.symm.trans hid)⟩
        · rw [hnone id₁ hown] at hp₁
          simp at hp₁
      · rcases hfor with hid | ⟨-, hspawn'⟩
        · rw [hnone id hid] at hp
          simp at hp
        · exact Prod.mk.inj (Except.ok.inj (hspawn.symm.trans hspawn'))
    obtain rfl := Option.some.inj (hp₁.symm.trans hp)
    have hskip : Doing e₁ (.act p₁ (.skip request.start)) (e₁.put r) :=
      .act (instance?_self hp) [] rfl hr
    refine hskip.spares hs fun q op hact _ _ start hopens => ?_
    obtain ⟨rfl, rfl⟩ := Deed.act.inj hact
    simp [Playback.Operation.Opens, hactive] at hopens

omit [Behaviour β] in
theorem Requested.mono {requests requests' : List SkipRequest} {id : Nat}
    (h : e.Requested requests id) (hmem : requests ⊆ requests') : e.Requested requests' id := by
  rcases h with htriggered | ⟨request, hrequest, hwanted⟩
  · exact Or.inl htriggered
  · exact Or.inr ⟨request, hmem hrequest, hwanted⟩

/-- What is triggered while requests are settled, or skipped for a request for another graph, is not
of a graph that is disabled. -/
theorem Requested.graph_ne {begins : Engine β → Nat → Prop} {a : Engine β} {request : SkipRequest}
    {p : Playback β} (h : a.Requested [request] p.id) (hl : e.Linked) (hf : e.Filed)
    (hg : e.isEnabled g = false) (hmem : request ∈ e.world.registry.takeQueue.1)
    (ha : Does (Ordinary begins) (e.withRegistry e.world.registry.takeQueue.2) a)
    (hne : request.graph ≠ g) (hp : p ∈ a.instances) : p.graph ≠ g := by
  have htake : Does (fun _ _ => True) e (e.withRegistry e.world.registry.takeQueue.2) :=
    e.does_takeQueue fun _ => ⟨trivial, trivial⟩
  have hla := (hl.does htake).does ha
  have hfa := (hf.does htake).does ha
  rcases h with htriggered | ⟨other, hother, hwanted⟩
  · exact htriggered.graph_ne hla hfa (ha.isEnabled_eq.trans hg) hp
  · obtain rfl := List.mem_singleton.mp hother
    rcases hwanted with hid | hserves
    · -- The instance was there when the request was made, and is still of the same graph.
      obtain ⟨q, hq, hqid, hqgraph⟩ := hl.graph_of_request hmem hid
      have hlt : p.id < e.nextId := hqid ▸ hl.tables.fresh q hq
      obtain ⟨p₀, hp₀, hsame⟩ := ha.descends.instances p hp hlt
      obtain rfl : p₀ = q :=
        List.inj_on_of_nodup_map hl.tables.ids hp₀ hq (hsame.id.symm.trans hqid.symm)
      rw [hsame.graph, hqgraph]
      exact hne
    · rw [hserves.graph_eq hla hfa hp]
      exact hne

/-- To skip what is requested spares a graph that is disabled and of which every request finds an
instance active. -/
theorem spares_skipRequests (hl : e.Linked) (hf : e.Filed) (hg : e.isEnabled g = false)
    {a a' : Engine β} {rest : List SkipRequest} (hrest : rest ⊆ e.world.registry.takeQueue.1)
    (ha : Does (Ordinary (Requested e.world.registry.takeQueue.1))
      (e.withRegistry e.world.registry.takeQueue.2) a)
    (hfinds : a.FindsActive g fuel rest) (h : a.skipRequests fuel rest = some a') :
    Spares g a a' := by
  have htake : Does (fun _ _ => True) e (e.withRegistry e.world.registry.takeQueue.2) :=
    e.does_takeQueue fun _ => ⟨trivial, trivial⟩
  induction rest generalizing a with
  | nil =>
    obtain rfl := Option.some.inj h
    exact .of_eq rfl rfl
  | cons request rest ih =>
    obtain ⟨hmem, hrest⟩ := List.cons_subset.mp hrest
    obtain ⟨hfirst, hlater⟩ := hfinds
    simp only [Engine.skipRequests, Option.bind_eq_bind, Option.bind_eq_some_iff] at h
    obtain ⟨a₁, h₁, a₂, h₂, h⟩ := h
    have hla := (hl.does htake).does ha
    have ha₁ : Does (Ordinary (Requested e.world.registry.takeQueue.1))
        (e.withRegistry e.world.registry.takeQueue.2) a₁ :=
      ha.trans (does_skipRequested hmem h₁).ordinary
    have hflush : Does (Ordinary Triggered) a₁ a₂ := does_flushAll h₂
    have hskips : Spares g a a₁ := by
      by_cases hgraph : request.graph = g
      · obtain ⟨id, p, hfor, hp, hactive⟩ := hfirst hgraph
        exact spares_skipRequested_of_isFor hla.notSkipping hfor hp hactive h₁
      · -- A request for another graph is for an instance of that graph.
        have hone : request ∈ [request] := List.mem_singleton.mpr rfl
        refine (does_skipRequested hone h₁).ordinary.spares hla fun b hb p hp hrequested => ?_
        have hab := ha.trans (hb.ordinary_mono fun _ _ hbegins =>
          hbegins.mono (List.cons_subset.mpr ⟨hmem, List.nil_subset _⟩))
        exact hrequested.graph_ne hl hf hg hmem hab hgraph hp
    have hflushed : Spares g a₁ a₂ :=
      hflush.spares_of_triggered ((hl.does htake).does ha₁) ((hf.does htake).does ha₁)
        (ha₁.isEnabled_eq.trans hg)
    have ha₂ := ha₁.trans (hflush.ordinary_mono fun _ _ => Or.inl)
    exact (hskips.trans hflushed).trans (ih hrest ha₂ (hlater a₁ a₂ h₁ h₂) h)

/-- Skipping everything spares a graph that is disabled and of which every request finds an instance
active. -/
theorem spares_skipAll (hl : e.Linked) (hf : e.Filed) (hg : e.isEnabled g = false)
    (hfinds : (e.withRegistry e.world.registry.takeQueue.2).FindsActive g fuel
      e.world.registry.takeQueue.1)
    (h : e.skipAll fuel = some e') : Spares g e e' := by
  obtain ⟨e₁, h₁, rfl⟩ := skipAll_cases h
  have htaken : Spares g e (e.withRegistry e.world.registry.takeQueue.2) := .of_eq rfl rfl
  have hskips := spares_skipRequests hl hf hg (List.Subset.refl _) .refl hfinds h₁
  refine (htaken.trans hskips).trans ⟨⟨[], ?_, fun _ hevent => absurd hevent List.not_mem_nil⟩,
    fun q hq _ hactive => Or.inl ⟨q, ?_, .refl q, hactive⟩⟩
  · rw [world_collect]
    rfl
  · rw [instances_collect] at hq
    exact List.mem_of_mem_filter hq

/-! ### Nothing triggers a disabled graph -/

/-- At any point, whatever has happened before, no trigger, no tick and no command begins a run of a
graph that is disabled, and neither does skipping everything as long as each request for the graph
finds an instance active. -/
theorem spares_of_disabled {e e₁ : Engine β} (h : e.Handled) (hs : Steps e e₁)
    (hg : e₁.isEnabled g = false) (fuel : Nat) :
    (∀ graph trigger e₂ answer, e₁.trigger fuel graph trigger = some (e₂, answer) →
      Spares g e₁ e₂ ∧
        (graph = g → e₁.graphs.contains g = true → answer = .error (.disabled g))) ∧
    (∀ nanoseconds e₂, e₁.tick fuel nanoseconds = some e₂ → Spares g e₁ e₂) ∧
    (∀ command e₂, e₁.apply fuel command = some e₂ → Spares g e₁ e₂) ∧
    (∀ e₂, e₁.skipAll fuel = some e₂ →
      (e₁.withRegistry e₁.world.registry.takeQueue.2).FindsActive g fuel
        e₁.world.registry.takeQueue.1 → Spares g e₁ e₂) := by
  have hl := h.linked.steps hs
  have hf := h.filed.steps hs
  refine ⟨fun graph trigger e₂ answer hr => ⟨?_, ?_⟩, fun nanoseconds e₂ hr => ?_,
    fun command e₂ hr => ?_, fun e₂ hr hfinds => ?_⟩
  · exact (does_trigger hr).spares_of_triggered hl hf hg
  · rintro rfl hknown
    have hbegin : e₁.begin fuel graph trigger =
        some (e₁.notice .graphDisabled, .error (.disabled graph)) := by
      unfold begin
      rw [if_neg (by simp [hknown]), if_pos (by simp [hg])]
    rw [Engine.trigger, hbegin] at hr
    exact (congrArg Prod.snd (Option.some.inj hr)).symm
  · exact (does_tick hr).spares_of_triggered hl hf hg
  · exact (does_apply hr).ordinary.spares_of_triggered hl hf hg
  · exact spares_skipAll hl hf hg hfinds hr

/-- The circle must not be triggered. -/
def disabledCircle : Engine Builtin :=
  ((ofKinds {} [echo]).register circle).setEnabled "circle" false

theorem reachable_disabledCircle : Reachable (fun _ => True) disabledCircle := by
  have hdisable : ((ofKinds {} [echo]).register circle).perform 0 (.setEnabled "circle" false) =
      some disabledCircle := rfl
  exact ((Reachable.start {} [echo]).register circle trivial).perform trivial hdisable

/-- The circle has been triggered before it was disabled, and its run waits to be skipped. -/
theorem reachable_queued_disabled : ∃ e : Engine Builtin, Reachable (fun _ => True) e ∧
    e.isEnabled "circle" = false ∧
    (e.withRegistry e.world.registry.takeQueue.2).FindsActive "circle" 7
      e.world.registry.takeQueue.1 ∧
    ∃ e', e.skipAll 7 = some e' ∧ e.world.news e'.world 0 = [.skipped 1, .ended true] := by
  have hruns : ∃ e₁ e, ((ofKinds {} [echo]).register circle).perform 1
        (.trigger "circle" { start := some 1 }) = some e₁ ∧
      e₁.perform 0 (.setEnabled "circle" false) = some e ∧
      e.isEnabled "circle" = false ∧
      (e.withRegistry e.world.registry.takeQueue.2).FindsActive "circle" 7
        e.world.registry.takeQueue.1 ∧
      ∃ e', e.skipAll 7 = some e' ∧ e.world.news e'.world 0 = [.skipped 1, .ended true] :=
    ⟨_, _, perform_trigger (by decide) (by decide) rfl rfl
      ((Playback.play_of_ne_zero 1 _ true Nat.one_ne_zero (by decide)).trans rfl) rfl, rfl, rfl,
      ⟨fun _ => ⟨0, _, Or.inl rfl, rfl, rfl⟩, fun _ _ _ _ => trivial⟩, _, rfl, rfl⟩
  obtain ⟨e₁, e, htrigger, hdisable, hfinds⟩ := hruns
  have hregistered : Reachable (fun _ => True) ((ofKinds {} [echo]).register circle) :=
    (Reachable.start {} [echo]).register circle trivial
  exact ⟨e, (hregistered.perform trivial htrigger).perform trivial hdisable, hfinds⟩

/-- The circle is refused when it is triggered, and if it runs already its run is skipped and no
other begins. -/
theorem spares_of_disabled_circle : (∃ e answer,
    disabledCircle.trigger 0 "circle" {} = some (e, answer) ∧ answer = .error (.disabled "circle") ∧
      Spares "circle" disabledCircle e) ∧
    ∃ e e' : Engine Builtin, e.skipAll 7 = some e' ∧
      e.world.news e'.world 0 = [.skipped 1, .ended true] ∧ Spares "circle" e e' := by
  obtain ⟨htrigger, -, -, -⟩ :=
    spares_of_disabled (g := "circle") reachable_disabledCircle.handled .refl (by decide) 0
  have hr : disabledCircle.trigger 0 "circle" {} =
      some (disabledCircle.notice .graphDisabled, .error (.disabled "circle")) := rfl
  obtain ⟨hspares, hrefused⟩ := htrigger "circle" {} _ _ hr
  obtain ⟨e, he, hdisabled, hfinds, e', hskip, hnews⟩ := reachable_queued_disabled
  obtain ⟨-, -, -, hskipAll⟩ := spares_of_disabled he.handled .refl hdisabled 7
  exact ⟨⟨_, _, hr, hrefused rfl (by decide), hspares⟩, e, e', hskip, hnews,
    hskipAll e' hskip hfinds⟩

/-- What comes from a save finds no instance, and a run begins although the graph is disabled. -/
example : ((disabledCircle.load "circle::1:1:0::").skipAll 7).map (·.world.eventsOf 0) =
    some [.began 1, .skipped 1, .ended true] := by
  rfl

end Cutscene.Engine
