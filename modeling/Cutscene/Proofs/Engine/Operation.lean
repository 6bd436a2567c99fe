import Cutscene.Proofs.Engine.Deed

/-!
# Operations of an engine

`Engine.Operation` lists what a host can do with an engine and its instances, `Engine.perform` does
it, and `Engine.Reachable` are the engines that a host can come by. Every operation but the reset of
a record is a number of deeds that it admits (`does_perform`), none of which makes kinds of nodes
known unless that is what it is for (`does_brings`), and with that of steps
(`steps_perform`) and of moves (`moves_perform`). What a host asks of an instance may begin a run,
but what commands and ticks bring about begins one only if a graph is `Triggered`. A reset halts an
instance without anyone hearing of it, which no stage of a playback does, so what holds after one is
shown apart.
-/

namespace Cutscene.Engine

variable {β : Type}

/-- What a host can do with an engine and its instances. -/
inductive Operation (β : Type) where
  | register (graph : Graph)
  | addKind (kind : NodeKind β)
  | setEnabled (graph : String) (on : Bool)
  | trigger (graph : String) (trigger : Trigger)
  | skip (id : Nat)
  | skipFrom (id start : Nat)
  | skipAll
  | pause (id : Nat)
  | resume (id start : Nat) (points : List Nat) (parameters : String) (rerun : Bool)
  | resumePaused (graph : String) (rerun : Bool)
  | kill (id : Nat)
  | killGraph (graph : String)
  | killAll
  | resetRecord (id : Nat) (unqueue : Bool)
  | tick (nanoseconds : Nat)
  | setScene (loading : Bool)
  | save
  | load (data : String)
  | loadSlot (slot : SaveSlot)
  /-- Changes the rate of time, opens menus, or moves the clock in other ways. -/
  | setClock (clock : Clock)
  | setVariables (vars : Variables)
  | setParameters (id : Nat) (parameters : ParameterSet)
  | setConversation (id : Nat) (conversation : Option String)
  | forgetChoices (id : Nat)

/-- The record of an instance is reset. -/
def Operation.isReset : Operation β → Bool
  | .resetRecord _ _ => true
  | _ => false

/-- The operation may consist of such deeds. -/
def Operation.Admits (op : Operation β) : Deed β → Prop
  | .register graph => op = .register graph
  | .unqueue => op = .skipAll
  | .reset => op.isReset = true
  | .clear => False
  | _ => True

/-- The operation makes a kind of nodes known, or enables or disables a graph. -/
def Operation.isSetting : Operation β → Bool
  | .addKind _ | .setEnabled _ _ => true
  | _ => false

/-- The operation may consist of such deeds, and they allow nothing new unless it is for that. -/
def Operation.Brings (op : Operation β) (d : Deed β) : Prop :=
  op.Admits d ∧ (d = .allow → op.isSetting = true)

variable [Behaviour β]

/-- Does something with an engine. Answers other than the engine are left out. -/
def perform (fuel : Nat) (e : Engine β) : Operation β → Option (Engine β)
  | .register graph => some (e.register graph)
  | .addKind kind => some { e with kinds := e.kinds.insert kind.name kind }
  | .setEnabled graph on => some (e.setEnabled graph on)
  | .trigger graph trigger => (e.trigger fuel graph trigger).map (·.1)
  | .skip id => (e.skip fuel id).map (·.1)
  | .skipFrom id start => (e.skipFrom fuel id start).map (·.1)
  | .skipAll => e.skipAll fuel
  | .pause id => (e.pause fuel id).map (·.1)
  | .resume id start points parameters rerun =>
    (e.resume fuel id start points parameters rerun).map (·.1)
  | .resumePaused graph rerun => (e.resumePaused fuel graph rerun).map (·.1)
  | .kill id => (e.kill fuel id).map (·.1)
  | .killGraph graph => (e.killGraph fuel graph).map (·.1)
  | .killAll => some e.killAll
  | .resetRecord id unqueue => some (e.resetRecord id unqueue).1
  | .tick nanoseconds => e.tick fuel nanoseconds
  | .setScene loading => some (e.setScene loading)
  | .save => some e
  | .load data => some (e.load data)
  | .loadSlot slot => some (e.loadSlot slot)
  | .setClock clock => some { e with world := { e.world with clock } }
  | .setVariables vars => some { e with world := { e.world with vars } }
  | .setParameters id parameters =>
    some (e.modifyInstance id fun p => ({ p with parameters }, []))
  | .setConversation id conversation =>
    some (e.modifyInstance id fun p => ({ p with conversation }, []))
  | .forgetChoices id => some (e.modifyInstance id fun p => (p.forgetChoices, []))

/-- The engines that a host can come by through operations of a kind. Each operation may take as
long as it likes, but it returns. -/
inductive Reachable (allowed : Operation β → Prop) : Engine β → Prop
  | start (config : Config) (kinds : List (NodeKind β)) : Reachable allowed (ofKinds config kinds)
  | perform {e e' : Engine β} (h : Reachable allowed e) {fuel : Nat} {op : Operation β}
    (hop : allowed op) (hr : e.perform fuel op = some e') : Reachable allowed e'

theorem Reachable.register {allowed : Operation β → Prop} {e : Engine β}
    (h : Reachable allowed e) (graph : Graph) (ha : allowed (.register graph)) :
    Reachable allowed (e.register graph) := by
  have hr : e.perform 0 (.register graph) = some (e.register graph) := rfl
  exact h.perform ha hr

/-! ### Who may begin a run -/

omit [Behaviour β] in
/-- The instance has been found or made for a graph that may be triggered. -/
def Triggered (e : Engine β) (id : Nat) : Prop :=
  ∃ graph, e.isEnabled graph = true ∧ e.Serves graph id

omit [Behaviour β] in
/-- The instance has been triggered, or one of the requests asks for it to be skipped. -/
def Requested (requests : List SkipRequest) (e : Engine β) (id : Nat) : Prop :=
  e.Triggered id ∨
    ∃ request ∈ requests, request.playback = some id ∨ e.Serves request.graph id

/-- What happens while commands are applied: what instances bring about, and commands are taken. -/
def Ordinary (begins : Engine β → Nat → Prop) (e : Engine β) (d : Deed β) : Prop :=
  Prompted begins e d ∨ d = .pass

/-- What happens while commands are applied takes up nothing that has become due. -/
def Undue (begins : Engine β → Nat → Prop) (e : Engine β) (d : Deed β) : Prop :=
  Ordinary begins e d ∧ d.isUpdate = false

/-- What happens while instances are updated, and commands are applied in between. -/
def Ticking (ids : List Nat) (e : Engine β) (d : Deed β) : Prop :=
  Ordinary Triggered e d ∧ ∀ p op, d = .act p op → op.isUpdate = true → p.id ∈ ids

variable {fuel : Nat} {e e' : Engine β} {allowed : Engine β → Deed β → Prop}
  {begins begins' : Engine β → Nat → Prop}

theorem Does.ordinary (h : Does (Commanded begins) e e') : Does (Ordinary begins) e e' :=
  h.mono fun _ _ hd => Or.inl hd.1

theorem Does.undue (h : Does (Commanded begins) e e') : Does (Undue begins) e e' :=
  h.mono fun _ _ hd => ⟨Or.inl hd.1, hd.2⟩

theorem Does.ticking (h : Does (Undue Triggered) e e') (ids : List Nat) :
    Does (Ticking ids) e e' :=
  h.mono fun _ d hd => ⟨hd.1, fun p op hact hu => by
    have hnot : d.isUpdate = false := hd.2
    simp [hact, Deed.isUpdate, hu] at hnot⟩

theorem Does.ordinary_of_undue (h : Does (Undue begins) e e') : Does (Ordinary begins) e e' :=
  h.mono fun _ _ hd => hd.1

omit [Behaviour β] in
theorem Prompted.mono {d : Deed β} (h : Prompted begins e d)
    (hb : ∀ e id, begins e id → begins' e id) : Prompted begins' e d := by
  cases d with
  | act p op => exact fun hopens => hb e p.id (h hopens)
  | _ => exact h

theorem Does.ordinary_mono (h : Does (Ordinary begins) e e')
    (hb : ∀ e id, begins e id → begins' e id) : Does (Ordinary begins') e e' :=
  h.mono fun _ _ hd => hd.imp (fun hd => hd.mono hb) id

/-- Every operation may do what commands bring about. -/
theorem Does.brings (h : Does (Ordinary begins) e e') (op : Operation β) :
    Does (fun _ => op.Brings) e e' :=
  h.mono fun _ d hd => by
    rcases hd with hd | rfl
    · cases d <;> first | exact absurd hd id | exact ⟨trivial, fun h => nomatch h⟩
    · exact ⟨trivial, fun h => nomatch h⟩

theorem does_pass {w : World β} (h : e.world.Aside w) :
    Does (Ordinary begins) e { e with world := w } :=
  (Doing.pass h).does (Or.inr rfl)

omit [Behaviour β] in
/-- The instance that a graph gets has been found or made for it. -/
theorem serves_spawn {graph : String} {id : Nat} (h : e.spawn graph = .ok (e', id)) :
    e'.Serves graph id := by
  rcases spawn_cases h with
    ⟨rfl, -, p, hp, hgraph, rfl⟩ | ⟨edition, nodes, notices, parked, hg, -, -, -, heq⟩
  · exact ⟨p, hp, rfl, Or.inl hgraph⟩
  · obtain ⟨rfl, rfl⟩ := Prod.mk.inj heq
    exact ⟨_, List.mem_append_right _ List.mem_cons_self, rfl, Or.inr ⟨edition, hg, rfl⟩⟩

omit [Behaviour β] in
theorem disabled_spawn {graph : String} {id : Nat} (h : e.spawn graph = .ok (e', id)) :
    e'.disabled = e.disabled := by
  rcases spawn_cases h with ⟨rfl, -⟩ | ⟨edition, nodes, notices, parked, -, -, -, -, heq⟩
  · rfl
  · obtain rfl : e' = _ := congrArg Prod.fst heq
    rfl

/-! ### Parts of operations as deeds -/

/-- A graph is only given an instance to begin a run with if it is enabled. -/
theorem isEnabled_of_begin {graph : String} {trigger : Trigger} {id : Nat}
    (h : e.begin fuel graph trigger = some (e', .ok id)) : e.isEnabled graph = true := by
  unfold begin at h
  by_cases hg : (!e.graphs.contains graph) = true
  · simp [hg] at h
  · by_cases hd : (!e.isEnabled graph) = true
    · simp [hg, hd] at h
    · simpa using hd

theorem does_begin {graph : String} {trigger : Trigger} {answer : Except EngineError Nat}
    (h : e.begin fuel graph trigger = some (e', answer)) : Does (Commanded Triggered) e e' := by
  rcases begin_cases h with ⟨error, -, hrefused⟩ | ⟨e₁, id, p, r, rfl, hs, hp, hr, rfl⟩
  · rcases hrefused with rfl | rfl
    · exact .refl
    · exact does_notice e _
  · have htriggered : e₁.Triggered id := by
      refine ⟨graph, ?_, serves_spawn hs⟩
      have henabled := isEnabled_of_begin h
      unfold isEnabled at henabled ⊢
      rwa [disabled_spawn hs]
    have hspawn : Does (Commanded Triggered) e e₁ := (Doing.spawn hs).does ⟨trivial, rfl⟩
    exact hspawn.trans (does_told_act (trigger.operation p) hp _ (trigger.operation_isReset p)
      (trigger.operation_isUpdate p) hr
      fun _ => htriggered)

theorem does_killGraphNow (e : Engine β) (graph : String) :
    Does (Commanded begins) e (e.killGraphNow graph).1 := by
  have hkill : Does (Commanded begins) e ((e.instancesOf graph).foldl killOne e) :=
    does_foldl commanded_killOne e
  exact hkill.tail
    ⟨.thin, ⟨trivial, rfl⟩, .thin (.dropDetached graph) fun _ => List.mem_of_mem_filter⟩

/-- A run that was paused goes on, which is not to begin. -/
theorem does_resumeRecord {id : Nat} {r : Record} {rerun : Bool} {ids : List Nat}
    (hpaused : r.isPaused = true) (h : e.resumeRecord fuel id r rerun = some (e', ids)) :
    Does (Commanded begins) e e' := by
  unfold resumeRecord at h
  cases hp : e.instance? id with
  | none =>
    simp only [hp, Option.some.injEq, Prod.mk.injEq] at h
    obtain ⟨rfl, -⟩ := h
    exact .refl
  | some p =>
    simp only [hp, Option.map_eq_some_iff, Prod.mk.injEq] at h
    obtain ⟨s, hs, rfl, -⟩ := h
    have hpoints : r.resumePoints ≠ [] := by
      rintro hnil
      simp [Record.isPaused, hnil] at hpaused
    refine does_act (.resume _ _ _ _) hp rfl rfl hs ?_
    rintro ⟨start, hnil | hkind⟩
    · exact absurd hnil hpoints
    · cases hkind

theorem does_resumeAttached {rerun : Bool} {records : List Record} {ids : List Nat}
    (hpaused : ∀ r ∈ records, r.isPaused = true)
    (h : e.resumeAttached fuel rerun records = some (e', ids)) : Does (Commanded begins) e e' := by
  induction records generalizing e ids with
  | nil =>
    simp only [resumeAttached, Option.some.injEq, Prod.mk.injEq] at h
    obtain ⟨rfl, -⟩ := h
    exact .refl
  | cons r rest ih =>
    obtain ⟨hfirst, hrest⟩ := List.forall_mem_cons.mp hpaused
    rw [resumeAttached] at h
    cases hid : r.playback with
    -- A record without an instance is not one of these.
    | none =>
      simp only [hid] at h
      exact ih hrest h
    | some id =>
      simp only [hid, Option.bind_eq_bind, Option.bind_eq_some_iff, Prod.exists, Option.pure_def,
        Option.some.injEq, Prod.mk.injEq] at h
      obtain ⟨e₁, _, h₁, e₂, _, h₂, rfl, -⟩ := h
      exact (does_resumeRecord hfirst h₁).trans (ih hrest h₂)

theorem does_resumeDetached {rerun : Bool} {graph : String} {count : Nat} {ids : List Nat}
    (h : resumeDetached fuel rerun graph count e = some (e', ids)) :
    Does (Commanded begins) e e' := by
  induction count generalizing e ids with
  | zero =>
    simp only [resumeDetached, Option.some.injEq, Prod.mk.injEq] at h
    obtain ⟨rfl, -⟩ := h
    exact .refl
  | succ count ih =>
    rw [resumeDetached] at h
    cases hr : e.world.registry.detachedPaused? graph with
    | none =>
      simp only [hr, Option.some.injEq, Prod.mk.injEq] at h
      obtain ⟨rfl, -⟩ := h
      exact .refl
    | some r =>
      have hpaused : r.isPaused = true := by
        have hfound := List.find?_some hr
        simp only [Registry.isDetachedPaused, Bool.and_eq_true] at hfound
        exact hfound.2
      cases hs : (e.withRegistry (e.world.registry.dropDetachedPaused graph)).spawn graph with
      | error error =>
        simp only [hr, hs, Option.some.injEq, Prod.mk.injEq] at h
        obtain ⟨rfl, -⟩ := h
        exact .refl
      | ok s =>
        obtain ⟨e₁, id⟩ := s
        simp only [hr, hs, Option.bind_eq_bind, Option.bind_eq_some_iff, Prod.exists,
          Option.pure_def, Option.some.injEq, Prod.mk.injEq] at h
        obtain ⟨e₂, _, h₂, e₃, _, h₃, rfl, -⟩ := h
        have hdrop : Does (Commanded begins) e
            (e.withRegistry (e.world.registry.dropDetachedPaused graph)) :=
          (Doing.thin (.dropDetachedPaused graph) fun _ hr => List.mem_of_mem_eraseP hr).does
            ⟨trivial, rfl⟩
        have hspawn : Does (Commanded begins)
            (e.withRegistry (e.world.registry.dropDetachedPaused graph)) e₁ :=
          (Doing.spawn hs).does ⟨trivial, rfl⟩
        have hbrief : Does (Commanded begins) e₁
            (e₁.modifyInstance id fun p => ({ p with conversation := r.conversation }, [])) :=
          does_modifyInstance (d := .brief) ⟨trivial, rfl⟩ id
            fun p hp => .brief hp p.parameters r.conversation
        -- The record gives way to an instance of its own, which is then resumed.
        have hready := (hdrop.trans hspawn).trans hbrief
        exact hready.trans ((does_resumeRecord hpaused h₂).trans (ih h₃))

theorem does_resumePausedNow {graph : String} {rerun : Bool}
    {answer : Except EngineError (List Nat)}
    (h : e.resumePausedNow fuel graph rerun = some (e', answer)) :
    Does (Commanded begins) e e' := by
  rcases resumePausedNow_cases h with ⟨error, -, rfl⟩ | ⟨e₁, ids, more, h₁, h₂, -⟩
  · exact .refl
  · refine (does_resumeAttached (fun r hr => ?_) h₁).trans (does_resumeDetached h₂)
    have hkept := (List.mem_filter.mp hr).2
    simp only [Bool.and_eq_true] at hkept
    exact hkept.2

theorem does_pauseOne (e : Engine β) (id : Nat) : Does (Commanded begins) e (e.pauseOne id) := by
  unfold pauseOne
  cases hp : e.instance? id with
  | none => exact .refl
  | some p =>
    have hpause : p.perform 0 e.world .pause = some (p.pause e.world) := rfl
    exact does_act .pause hp rfl rfl hpause fun ⟨_, hopens⟩ => False.elim hopens

/-- What runs does not begin when it is skipped. -/
theorem does_skipRunning {ids : List Nat} (h : e.skipRunning fuel ids = some e') :
    Does (Commanded begins) e e' := by
  induction ids generalizing e with
  | nil =>
    obtain rfl := Option.some.inj h
    exact .refl
  | cons id rest ih =>
    rw [skipRunning] at h
    cases hp : e.instance? id with
    | none =>
      simp only [hp] at h
      exact ih h
    | some p =>
      simp only [hp] at h
      split_ifs at h with hrun
      · simp only [Option.bind_eq_bind, Option.bind_eq_some_iff] at h
        obtain ⟨r, hr, h⟩ := h
        -- What runs is active, so to skip it begins no run.
        have hactive : p.isActive = true := by
          simp only [Playback.isRunning, decide_eq_true_eq] at hrun
          simp [Playback.isActive, hrun]
        refine (does_act (.skip _) hp rfl rfl hr ?_).trans (ih h)
        rintro ⟨start, hidle⟩
        exact absurd hactive (by simp [show p.isActive = false from hidle])
      · exact ih h

theorem does_apply {command : Command} (h : e.apply fuel command = some e') :
    Does (Commanded Triggered) e e' := by
  cases command with
  | start graph start queue skip =>
    simp only [apply, Option.bind_eq_bind, Option.bind_eq_some_iff, Prod.exists] at h
    obtain ⟨e₁, answer, h₁, h⟩ := h
    refine (does_begin h₁).trans ?_
    cases answer with
    | ok id =>
      obtain rfl := Option.some.inj h
      exact .refl
    | error error =>
      obtain rfl := Option.some.inj h
      exact does_notice e₁ _
  | kill graph =>
    obtain rfl := Option.some.inj h
    exact does_killGraphNow e graph
  | pause graph =>
    obtain rfl := Option.some.inj h
    exact does_foldl does_pauseOne e
  | resume graph rerun =>
    simp only [apply, Option.bind_eq_bind, Option.bind_eq_some_iff, Prod.exists] at h
    obtain ⟨e₁, answer, h₁, h⟩ := h
    refine (does_resumePausedNow h₁).trans ?_
    -- Whatever the answer, a command only leaves a notice of it.
    cases answer with
    | ok ids =>
      obtain rfl := Option.some.inj h
      exact .refl
    | error error =>
      obtain rfl := Option.some.inj h
      exact does_notice e₁ _
  | skip graph => exact does_skipRunning h

theorem undue_withCommands (e : Engine β) (commands : List Command) :
    Does (Undue Triggered) e (e.withCommands commands) :=
  (Doing.pass (w := { e.world with commands }) (.of_journal_eq rfl rfl rfl)).does ⟨Or.inr rfl, rfl⟩

theorem undue_takeUp (e : Engine β) (batch : List Command) :
    Does (Undue Triggered) e (e.takeUp batch).1 := by
  cases batch with
  | nil => exact undue_withCommands e []
  | cons => exact .refl

theorem undue_flush {budget : Nat} {batch : List Command}
    (h : flush fuel budget batch e = some e') : Does (Undue Triggered) e e' := by
  induction budget generalizing batch e with
  | zero =>
    rw [flush_zero, cutOff] at h
    obtain rfl := Option.some.inj h
    split_ifs
    · exact .refl
    · exact (undue_withCommands e []).trans (does_notice _ _).undue
  | succ budget ih =>
    have htake := undue_takeUp e batch
    rcases e.takeUp_cases batch with hnone | ⟨e₁, command, rest, htaken⟩
    · rw [flush_of_nil hnone] at h
      obtain rfl := Option.some.inj h
      exact .refl
    · rw [flush_of_takeUp htaken] at h
      obtain ⟨e₂, h₂, h⟩ := Option.bind_eq_some_iff.mp h
      rw [htaken] at htake
      exact (htake.trans (does_apply h₂).undue).trans (ih h)

theorem undue_flushAll (h : e.flushAll fuel = some e') : Does (Undue Triggered) e e' :=
  undue_flush h

theorem does_flushAll (h : e.flushAll fuel = some e') : Does (Ordinary Triggered) e e' :=
  (undue_flushAll h).ordinary_of_undue

theorem does_conclude (h : e.conclude fuel = some e') : Does (Ordinary Triggered) e e' := by
  obtain ⟨e₁, h₁, rfl⟩ := conclude_cases h
  exact (does_flushAll h₁).trans (does_collect e₁).ordinary

/-! ### Operations as deeds -/

theorem does_trigger {graph : String} {trigger : Trigger} {answer : Except EngineError Nat}
    (h : e.trigger fuel graph trigger = some (e', answer)) : Does (Ordinary Triggered) e e' := by
  rcases trigger_cases h with ⟨error, -, h₁⟩ | ⟨e₁, id, -, h₁, h₂⟩
  · exact (does_begin h₁).ordinary
  · exact (does_begin h₁).ordinary.trans (does_conclude h₂)

/-- What a host asks of an instance may begin a run in any case. -/
theorem does_onInstance {id : Nat} {f : Playback β → World β → Option (Playback β × World β)}
    (op : Playback β → Playback.Operation) {answer : Except EngineError Unit}
    (hop : ∀ p, (op p).isReset = false) (hu : ∀ p, (op p).isUpdate = false)
    (hf : ∀ p w, f p w = p.perform fuel w (op p))
    (h : e.onInstance fuel id f = some (e', answer)) :
    Does (Ordinary fun _ _ => True) e e' := by
  rcases onInstance_cases h with ⟨-, rfl, -⟩ | ⟨p, r, hp, hr, h₁, -⟩
  · exact .refl
  · rw [hf] at hr
    have hact : Does (Commanded fun _ _ => True) e (e.put r) :=
      does_act (op p) hp (hop p) (hu p) hr fun _ => trivial
    exact hact.ordinary.trans ((does_conclude h₁).ordinary_mono fun _ _ _ => trivial)

theorem does_resumePaused {graph : String} {rerun : Bool}
    {answer : Except EngineError (List Nat)}
    (h : e.resumePaused fuel graph rerun = some (e', answer)) : Does (Ordinary Triggered) e e' := by
  rcases resumePaused_cases h with ⟨error, -, h₁⟩ | ⟨e₁, ids, -, h₁, h₂⟩
  · exact (does_resumePausedNow h₁).ordinary
  · exact (does_resumePausedNow h₁).ordinary.trans (does_conclude h₂)

theorem does_kill {id : Nat} {answer : Except EngineError Unit}
    (h : e.kill fuel id = some (e', answer)) : Does (Ordinary Triggered) e e' := by
  rcases kill_cases h with ⟨-, rfl, -⟩ | ⟨h₁, -⟩
  · exact .refl
  · exact (commanded_killOne e id).ordinary.trans (does_conclude h₁)

theorem does_killGraph {graph : String} {count : Nat}
    (h : e.killGraph fuel graph = some (e', count)) : Does (Ordinary Triggered) e e' := by
  obtain ⟨h₁, -⟩ := killGraph_cases h
  exact (does_killGraphNow e graph).ordinary.trans (does_conclude h₁)

omit [Behaviour β] in
/-- Killing an instance takes it out; no other comes in its place. -/
theorem mem_instances_killOne {id : Nat} {q : Playback β} (h : q ∈ (e.killOne id).instances) :
    q.id ≠ id ∧ ∃ p ∈ e.instances, p.id = q.id := by
  unfold killOne at h
  cases hp : e.instance? id with
  | none =>
    simp only [hp] at h
    refine ⟨fun hq => ?_, q, h, rfl⟩
    have hnone : ∀ x ∈ e.instances, x.id ≠ id := by
      simpa [instance?] using hp
    exact hnone q h hq
  | some p =>
    have hput : (e.put (p.kill e.world)).instance? id = some (p.kill e.world).1 := by
      rw [instance?_put, hp, Option.map_some, if_pos (show p.id = (p.kill e.world).1.id from rfl)]
    simp only [hp, release, hput] at h
    rw [park_withInstances] at h
    obtain ⟨hmem, hne⟩ := List.mem_filter.mp h
    -- What is left was there before, though it may be the instance that has been killed.
    obtain ⟨x, hx, rfl⟩ := List.mem_map.mp hmem
    refine ⟨by simpa using hne, x, hx, ?_⟩
    split_ifs with hid
    · exact hid
    · rfl

omit [Behaviour β] in
theorem mem_instances_foldl_killOne {ids : List Nat} {q : Playback β}
    (h : q ∈ (ids.foldl killOne e).instances) :
    q.id ∉ ids ∧ ∃ p ∈ e.instances, p.id = q.id := by
  induction ids generalizing e with
  | nil => exact ⟨List.not_mem_nil, q, h, rfl⟩
  | cons id rest ih =>
    obtain ⟨hrest, p, hp, hpq⟩ := ih h
    obtain ⟨hne, x, hx, hxp⟩ := mem_instances_killOne hp
    have hqne : q.id ≠ id := by
      rw [← hpq]
      exact hne
    refine ⟨?_, x, hx, hxp.trans hpq⟩
    rw [List.mem_cons, not_or]
    exact ⟨hqne, hrest⟩

omit [Behaviour β] in
theorem instances_foldl_killOne (e : Engine β) :
    ((e.instances.map (·.id)).foldl killOne e).instances = [] := by
  refine List.eq_nil_iff_forall_not_mem.mpr fun q hq => ?_
  obtain ⟨hnot, p, hp, hpq⟩ := mem_instances_foldl_killOne hq
  exact hnot (List.mem_map.mpr ⟨p, hp, hpq⟩)

/-- Everything is killed, and a registry without instances takes the place of the old one. -/
theorem does_killAll_withRegistry (e : Engine β) {reg : Registry} (hr : reg.IsAnew)
    (op : Operation β) : Does (fun _ => op.Brings) e (e.killAll.withRegistry reg) := by
  have hkill : Does (Commanded Triggered) e ((e.instances.map (·.id)).foldl killOne e) :=
    does_foldl commanded_killOne e
  have hreload := (hkill.ordinary.brings op).tail
    ⟨.reload, ⟨trivial, fun h => nomatch h⟩, .reload e.instances_foldl_killOne hr⟩
  exact hreload.tail ⟨.pass, ⟨trivial, fun h => nomatch h⟩, .pass (.of_journal_eq rfl rfl rfl)⟩

theorem does_load (e : Engine β) (data : String) (op : Operation β) :
    Does (fun _ => op.Brings) e (e.load data) :=
  (does_killAll_withRegistry e (Or.inr ⟨data, rfl⟩) op).tail
    ⟨.note, ⟨trivial, fun h => nomatch h⟩, .note _⟩

/-- To skip what is requested begins a run only of what has been requested. -/
theorem does_skipRequested {requests : List SkipRequest} {request : SkipRequest}
    (hmem : request ∈ requests) (h : e.skipRequested fuel request = some e') :
    Does (Commanded (Requested requests)) e e' := by
  rcases skipRequested_cases h with ⟨error, -, rfl⟩ | ⟨e₁, id, p, r, htarget, hp, hr, rfl⟩
  · exact does_notice e _
  · have hact : (request.playback = some id ∨ e₁.Serves request.graph id) →
        Does (Commanded (Requested requests)) e₁ (e₁.put r) := fun hwanted =>
      does_told_act (.skip request.start) hp [] rfl rfl hr fun _ => Or.inr ⟨request, hmem, hwanted⟩
    rcases htarget with ⟨hid, rfl⟩ | ⟨-, hs⟩
    · exact hact (Or.inl hid)
    · have hspawn : Does (Commanded (Requested requests)) e e₁ :=
        (Doing.spawn hs).does ⟨trivial, rfl⟩
      exact hspawn.trans (hact (Or.inr (serves_spawn hs)))

theorem does_skipRequests {requests rest : List SkipRequest} (hmem : rest ⊆ requests)
    (h : e.skipRequests fuel rest = some e') : Does (Ordinary (Requested requests)) e e' := by
  induction rest generalizing e with
  | nil =>
    obtain rfl := Option.some.inj h
    exact .refl
  | cons request rest ih =>
    obtain ⟨hfirst, hrest⟩ := List.cons_subset.mp hmem
    simp only [skipRequests, Option.bind_eq_bind, Option.bind_eq_some_iff] at h
    obtain ⟨e₁, h₁, e₂, h₂, h⟩ := h
    have hskip := (does_skipRequested hfirst h₁).ordinary
    have hflush : Does (Ordinary (Requested requests)) e₁ e₂ :=
      (does_flushAll h₂).ordinary_mono fun _ _ => Or.inl
    exact (hskip.trans hflush).trans (ih hrest h)

/-- First the skip queue is emptied, and only then anything is skipped. -/
theorem does_takeQueue (e : Engine β) (ha : ∀ e : Engine β, allowed e .unqueue ∧ allowed e .thin) :
    Does allowed e (e.withRegistry e.world.registry.takeQueue.2) := by
  have hunqueue := (Doing.unqueue (e := e)).does (ha e).1
  exact hunqueue.tail ⟨_, (ha _).2, .thin .purge fun _ hr => List.mem_of_mem_filter hr⟩

theorem does_skipAll (h : e.skipAll fuel = some e') :
    Does (fun _ => (Operation.skipAll (β := β)).Brings) e e' := by
  obtain ⟨e₁, h₁, rfl⟩ := skipAll_cases h
  have htake : Does (fun _ => (Operation.skipAll (β := β)).Brings) e
      (e.withRegistry e.world.registry.takeQueue.2) := e.does_takeQueue fun _ =>
      ⟨⟨rfl, fun h => nomatch h⟩, trivial, fun h => nomatch h⟩
  have hskip := (does_skipRequests (List.Subset.refl _) h₁).brings .skipAll
  have hcollect : Does (Commanded Triggered) e₁ e₁.collect := does_collect e₁
  exact (htake.trans hskip).trans (hcollect.ordinary.brings .skipAll)

/-- The instances that take up what has become due are some of those that are updated. -/
theorem ticks_updateAll {ids : List Nat} (h : e.updateAll fuel ids = some e') :
    Does (Ticking ids) e e' := by
  induction ids generalizing e with
  | nil =>
    obtain rfl := Option.some.inj h
    exact .refl
  | cons id rest ih =>
    rw [updateAll_cons] at h
    obtain ⟨e₁, h₁, h⟩ := Option.bind_eq_some_iff.mp h
    obtain ⟨e₂, h₂, h⟩ := Option.bind_eq_some_iff.mp h
    have hfirst : Does (Ticking (id :: rest)) e e₁ := by
      rcases updateOne_cases h₁ with ⟨-, rfl⟩ | ⟨p, r, hp, hr, rfl⟩
      · -- An update before this one has taken the instance out.
        exact .refl
      · have hupdate : p.perform fuel e.world .update = some r := hr
        refine (Doing.act (instance?_self hp) [] rfl hupdate).does ⟨Or.inl ?_, ?_⟩
        · exact fun ⟨_, hopens⟩ => False.elim hopens
        · rintro _ _ ⟨rfl, rfl⟩ -
          exact instance?_id hp ▸ List.mem_cons_self
    have hrest : Does (Ticking (id :: rest)) e₂ e' :=
      (ih h).mono fun _ _ hd =>
        ⟨hd.1, fun p op hact hu => List.mem_cons_of_mem _ (hd.2 p op hact hu)⟩
    exact (hfirst.trans ((undue_flushAll h₂).ticking (id :: rest))).trans hrest

theorem does_updateAll {ids : List Nat} (h : e.updateAll fuel ids = some e') :
    Does (Ordinary Triggered) e e' :=
  (ticks_updateAll h).mono fun _ _ hd => hd.1

theorem does_advanced (e : Engine β) (nanoseconds : Nat) :
    Does (Ordinary begins) e (e.advanced nanoseconds) :=
  does_pass (w := { e.world with clock := e.world.clock.advance nanoseconds })
    (.of_journal_eq rfl rfl rfl)

theorem does_tick {nanoseconds : Nat} (h : e.tick fuel nanoseconds = some e') :
    Does (Ordinary Triggered) e e' := by
  obtain ⟨e₁, h₁, rfl⟩ := tick_cases h
  exact ((does_advanced e nanoseconds).trans (does_updateAll h₁)).trans (does_collect e₁).ordinary

omit [Behaviour β] in
/-- An operation that leads to an engine gives some answer with it. -/
theorem exists_of_map_fst {α : Type} {result : Option (Engine β × α)}
    (h : result.map (·.1) = some e') : ∃ answer, result = some (e', answer) := by
  obtain ⟨⟨e₁, answer⟩, hr, rfl⟩ := Option.map_eq_some_iff.mp h
  exact ⟨answer, hr⟩

/-- Every operation but the reset of a record is a number of deeds that it may bring about. -/
theorem does_brings {op : Operation β} (hop : op.isReset = false)
    (h : e.perform fuel op = some e') : Does (fun _ => op.Brings) e e' := by
  have hone : ∀ {d : Deed β} {e' : Engine β}, Doing e d e' → op.Brings d →
      Does (fun _ => op.Brings) e e' := fun hd ha => hd.does ha
  cases op with
  | resetRecord id unqueue => simp [Operation.isReset] at hop
  | trigger graph trigger =>
    obtain ⟨answer, hr⟩ := exists_of_map_fst h
    exact (does_trigger hr).brings _
  | skip id =>
    obtain ⟨answer, hr⟩ := exists_of_map_fst h
    exact (does_onInstance (fun p => .skip p.start) (fun _ => rfl) (fun _ => rfl)
      (fun _ _ => rfl) hr).brings _
  | skipFrom id start =>
    obtain ⟨answer, hr⟩ := exists_of_map_fst h
    exact (does_onInstance (fun _ => .skip start) (fun _ => rfl) (fun _ => rfl)
      (fun _ _ => rfl) hr).brings _
  | skipAll => exact does_skipAll h
  | pause id =>
    obtain ⟨answer, hr⟩ := exists_of_map_fst h
    exact (does_onInstance (fun _ => .pause) (fun _ => rfl) (fun _ => rfl)
      (fun _ _ => rfl) hr).brings _
  | resume id start points parameters rerun =>
    obtain ⟨answer, hr⟩ := exists_of_map_fst h
    exact (does_onInstance (fun _ => .resume start points parameters rerun) (fun _ => rfl)
      (fun _ => rfl) (fun _ _ => rfl) hr).brings _
  | resumePaused graph rerun =>
    obtain ⟨answer, hr⟩ := exists_of_map_fst h
    exact (does_resumePaused hr).brings _
  | kill id =>
    obtain ⟨answer, hr⟩ := exists_of_map_fst h
    exact (does_kill hr).brings _
  | killGraph graph =>
    obtain ⟨answer, hr⟩ := exists_of_map_fst h
    exact (does_killGraph hr).brings _
  | tick nanoseconds => exact (does_tick h).brings _
  | register graph =>
    obtain rfl := Option.some.inj h
    exact hone (.register graph) ⟨rfl, fun h => nomatch h⟩
  | addKind kind =>
    obtain rfl := Option.some.inj h
    exact hone .allow ⟨trivial, fun _ => rfl⟩
  | setEnabled graph on =>
    obtain rfl := Option.some.inj h
    exact hone .allow ⟨trivial, fun _ => rfl⟩
  | killAll =>
    obtain rfl := Option.some.inj h
    exact does_killAll_withRegistry e (Or.inl rfl) _
  | save =>
    obtain rfl := Option.some.inj h
    exact .refl
  | load data =>
    obtain rfl := Option.some.inj h
    exact does_load e data _
  | loadSlot slot =>
    obtain rfl := Option.some.inj h
    exact (does_load e slot.records _).tail
      ⟨.pass, ⟨trivial, fun h => nomatch h⟩, .pass (.of_journal_eq rfl rfl rfl)⟩
  | setScene loading =>
    obtain rfl := Option.some.inj h
    exact hone (.pass (w := { e.world with sceneLoading := loading })
      (.of_journal_eq rfl rfl rfl)) ⟨trivial, fun h => nomatch h⟩
  | setClock clock =>
    obtain rfl := Option.some.inj h
    exact hone (.pass (w := { e.world with clock }) (.of_journal_eq rfl rfl rfl))
      ⟨trivial, fun h => nomatch h⟩
  | setVariables vars =>
    obtain rfl := Option.some.inj h
    exact hone (.pass (w := { e.world with vars }) (.of_journal_eq rfl rfl rfl))
      ⟨trivial, fun h => nomatch h⟩
  | setParameters id parameters =>
    obtain rfl := Option.some.inj h
    exact does_modifyInstance (d := .brief) ⟨trivial, fun h => nomatch h⟩ id
      fun p hp => .brief hp parameters p.conversation
  | setConversation id conversation =>
    obtain rfl := Option.some.inj h
    exact does_modifyInstance (d := .brief) ⟨trivial, fun h => nomatch h⟩ id
      fun p hp => .brief hp p.parameters conversation
  | forgetChoices id =>
    obtain rfl := Option.some.inj h
    exact does_modifyInstance (d := .forget) ⟨trivial, fun h => nomatch h⟩ id
      fun p hp => .forget hp

/-- Every operation but the reset of a record is a number of deeds that it admits. -/
theorem does_perform {op : Operation β} (hop : op.isReset = false)
    (h : e.perform fuel op = some e') : Does (fun _ => op.Admits) e e' :=
  (does_brings hop h).mono fun _ _ hd => hd.1

/-! ### Operations as steps and as moves -/

theorem Does.steps_of_ordinary (h : Does (Ordinary begins) e e') : Steps e e' :=
  h.steps fun _ d hd => by
    rcases hd with hd | rfl
    · cases d <;> first | rfl | exact absurd hd id
    · rfl

theorem steps_takeQueue (e : Engine β) : Steps e (e.withRegistry e.world.registry.takeQueue.2) :=
  (Step.trim .unqueue).steps.trans (Step.trim .purge).steps

theorem steps_skipRequested {request : SkipRequest} (h : e.skipRequested fuel request = some e') :
    Steps e e' :=
  (does_skipRequested (List.mem_singleton.mpr rfl) h).ordinary.steps_of_ordinary

/-- Every operation but the reset of a record is a number of steps. -/
theorem steps_perform {op : Operation β} (hop : op.isReset = false)
    (h : e.perform fuel op = some e') : Steps e e' :=
  (does_perform hop h).steps fun _ d hd => by
    cases d with
    | clear => exact absurd hd id
    | reset => simp [Operation.Admits, hop] at hd
    | _ => rfl

theorem moves_collect (e : Engine β) : Moves e e.collect := by
  have hcollect : Does (Commanded Triggered) e e.collect := does_collect e
  exact hcollect.ordinary.steps_of_ordinary.moves

theorem moves_advanced (e : Engine β) (nanoseconds : Nat) : Moves e (e.advanced nanoseconds) := by
  have hadvanced : Does (Ordinary Triggered) e (e.advanced nanoseconds) := does_advanced e _
  exact hadvanced.steps_of_ordinary.moves

theorem moves_updateAll {ids : List Nat} (h : e.updateAll fuel ids = some e') : Moves e e' :=
  (does_updateAll h).steps_of_ordinary.moves

/-- Every operation but the reset of a record is a number of moves. -/
theorem moves_perform {op : Operation β} (hop : op.isReset = false)
    (h : e.perform fuel op = some e') : Moves e e' :=
  (steps_perform hop h).moves

end Cutscene.Engine
