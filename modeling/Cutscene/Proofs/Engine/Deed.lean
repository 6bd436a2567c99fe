import Cutscene.Proofs.Engine.Step
import Cutscene.Proofs.Playback.Hearing

/-!
# Deeds

A step does not say what it is that changes an engine. `Engine.Deed` names it, and
`Engine.Doing` says what each deed makes of an engine; `Engine.Does` is any number of deeds of a
kind. So operations can be told apart by the deeds that they consist of, and what a kind of deeds
keeps is kept by every operation that consists of no others. A deed is also what nobody looks into:
instances are retired and their nodes put on the shelf in one go.
-/

namespace Cutscene.Engine

variable {β : Type}

/-- What is done to an engine in one go. -/
inductive Deed (β : Type) where
  /-- An instance is told parameters and a conversation, and does something. -/
  | act (p : Playback β) (op : Playback.Operation)
  /-- An instance is told parameters and a conversation. -/
  | brief
  /-- An instance forgets what it has chosen. -/
  | forget
  /-- The branches of an instance are given up. -/
  | clear
  /-- The record of an instance is reset. -/
  | reset
  | note
  /-- The world goes on beside the playbacks. -/
  | pass
  /-- Records go. -/
  | thin
  /-- The skip queue is emptied. -/
  | unqueue
  /-- Kinds of nodes become known, and graphs are enabled or disabled. -/
  | allow
  | register (graph : Graph)
  /-- A graph is given an instance. -/
  | spawn (graph : String)
  /-- Instances go that nobody will ask for. -/
  | retire
  /-- The registry is made anew once there are no instances. -/
  | reload

/-- An instance takes up what has become due. -/
def Deed.isUpdate : Deed β → Bool
  | .act _ op => op.isUpdate
  | _ => false

/-- The deed is done to an instance without asking it. -/
def Deed.isMeddling : Deed β → Bool
  | .clear | .reset => true
  | _ => false

/-- Instances go, and their nodes are put on the shelf, as far as that is for them to do. -/
def retired (e : Engine β) (keep : Playback β → Bool) (gone : List (Playback β)) : Engine β :=
  gone.foldl park { e with instances := e.instances.filter keep }

/-- The instances that go are idle, and among instances with one id there is one that stands for
all of them. -/
structure Retires (e : Engine β) (keep : Playback β → Bool) (gone : List (Playback β)) : Prop where
  idle : ∀ p ∈ e.instances, keep p = false → e.IsIdle p
  mem : ∀ p ∈ gone, p ∈ e.instances ∧ keep p = false
  all : ∀ p ∈ e.instances, keep p = false → ∃ q ∈ gone, q.id = p.id

/-- The instance with an id has been found or made for a graph. -/
def Serves (e : Engine β) (graph : String) (id : Nat) : Prop :=
  ∃ p ∈ e.instances, p.id = id ∧
    (p.graph = graph ∨ ∃ edition, e.graphs.get? graph = some edition ∧ p.graph = edition.graph.id)

variable [Behaviour β]

/-- What a deed makes of an engine. -/
inductive Doing (e : Engine β) : Deed β → Engine β → Prop
  | act {p : Playback β} (hp : e.instance? p.id = some p) {parameters : ParameterSet}
    {conversation : Option String} (notices : List Notice) {fuel : Nat} {op : Playback.Operation}
    {r : Playback β × World β} (hop : op.isReset = false)
    (hr : ({ p with parameters, conversation } : Playback β).perform fuel
      (e.world.noticeAll notices) op = some r) : Doing e (.act p op) (e.put r)
  | brief {p : Playback β} (hp : e.instance? p.id = some p) (parameters : ParameterSet)
    (conversation : Option String) :
    Doing e .brief (e.put ({ p with parameters, conversation }, e.world))
  | forget {p : Playback β} (hp : e.instance? p.id = some p) :
    Doing e .forget (e.put (p.forgetChoices, e.world))
  | clear {p : Playback β} (hp : e.instance? p.id = some p) :
    Doing e .clear (e.put (p.clearBranches, e.world))
  | reset {p : Playback β} (hp : e.instance? p.id = some p) (unqueue : Bool) :
    Doing e .reset (e.put (p.halt,
      { e.world with registry := e.world.registry.modify p.id (·.reset unqueue) }))
  | note (notices : List Notice) : Doing e .note (e.noticeAll notices)
  | pass {w : World β} (h : e.world.Aside w) : Doing e .pass { e with world := w }
  | thin {reg : Registry} (h : e.world.registry.Trim reg)
    (hs : ∀ r ∈ reg.records, r ∈ e.world.registry.records) : Doing e .thin (e.withRegistry reg)
  | unqueue : Doing e .unqueue (e.withRegistry e.world.registry.unqueued)
  | allow {kinds : Table (NodeKind β)} {disabled : List String} :
    Doing e .allow { e with kinds, disabled }
  | register (graph : Graph) : Doing e (.register graph) (e.register graph)
  | spawn {e' : Engine β} {graph : String} {id : Nat} (h : e.spawn graph = .ok (e', id)) :
    Doing e (.spawn graph) e'
  | retire {keep : Playback β → Bool} {gone : List (Playback β)} (h : e.Retires keep gone) :
    Doing e .retire (e.retired keep gone)
  | reload {reg : Registry} (h : e.instances = []) (hr : reg.IsAnew) :
    Doing e .reload (e.withRegistry reg)

/-- Any number of deeds, one after the other, each of a kind. -/
abbrev Does (allowed : Engine β → Deed β → Prop) (e e' : Engine β) : Prop :=
  Relation.ReflTransGen (fun a b => ∃ d, allowed a d ∧ Doing a d b) e e'

variable {allowed allowed' : Engine β → Deed β → Prop} {e e' : Engine β}

theorem Doing.does {d : Deed β} (h : Doing e d e') (hd : allowed e d) : Does allowed e e' :=
  .single ⟨d, hd, h⟩

theorem Does.mono (h : Does allowed e e') (ha : ∀ e d, allowed e d → allowed' e d) :
    Does allowed' e e' := by
  induction h with
  | refl => exact .refl
  | tail _ hd ih =>
    obtain ⟨d, hallowed, hdoing⟩ := hd
    exact ih.tail ⟨d, ha _ d hallowed, hdoing⟩

/-- What every deed of a kind keeps is kept by any number of them. -/
theorem Does.invariant {I : Engine β → Prop} (h : Does allowed e e') (he : I e)
    (hdeed : ∀ (e e' : Engine β) (d : Deed β), I e → allowed e d → Doing e d e' → I e') :
    I e' := by
  induction h with
  | refl => exact he
  | tail _ hd ih =>
    obtain ⟨d, hallowed, hdoing⟩ := hd
    exact hdeed _ _ d ih hallowed hdoing

/-! ### Deeds as steps -/

theorem steps_foldl_park {done : List (Playback β)}
    (h : ∀ p ∈ done, p ∈ e.instances ∧ p.phase ≠ .running) : Steps e (done.foldl park e) := by
  induction done generalizing e with
  | nil => exact .refl
  | cons p rest ih =>
    obtain ⟨hp, hrun⟩ := h p List.mem_cons_self
    refine (Step.park hp hrun).steps.trans (ih fun q hq => ?_)
    rw [(e.park_instances p).1]
    exact h q (List.mem_cons_of_mem p hq)

/-- Nodes may be put on the shelf before their instances go. -/
theorem steps_retired {keep : Playback β → Bool} {gone : List (Playback β)}
    (h : e.Retires keep gone) : Steps e (e.retired keep gone) := by
  unfold retired
  rw [foldl_park_withInstances]
  have hsweep : Step (gone.foldl park e) { gone.foldl park e with
      instances := (gone.foldl park e).instances.filter keep } := by
    refine .sweep fun p hp hkeep => ?_
    unfold IsIdle
    rw [(foldl_park_instances e _).1] at hp
    rw [(foldl_park_instances e _).2]
    exact h.idle p hp hkeep
  rw [(foldl_park_instances e _).1] at hsweep
  refine Relation.ReflTransGen.tail (steps_foldl_park fun p hp => ?_) hsweep
  obtain ⟨hmem, hkeep⟩ := h.mem p hp
  refine ⟨hmem, ?_⟩
  rcases h.idle p hmem hkeep with hphase | ⟨hphase, -⟩ <;> simp [hphase]

/-- A deed is a number of steps, unless it is done without asking the instance. -/
theorem Doing.steps {d : Deed β} (h : Doing e d e') (hd : d.isMeddling = false) : Steps e e' := by
  cases h with
  | act hp notices hop hr => exact steps_told_act _ hp (e.world.aside_noticeAll notices) hop hr
  | brief hp parameters conversation => exact (Step.told hp parameters conversation).steps
  | forget hp => exact (Step.forgot hp).steps
  | clear | reset => simp [Deed.isMeddling] at hd
  | note notices => exact (Step.around (e.world.aside_noticeAll notices)).steps
  | pass h => exact (Step.around h).steps
  | thin h => exact (Step.trim h).steps
  | unqueue => exact (Step.trim .unqueue).steps
  | allow => exact Step.allow.steps
  | register graph => exact (Step.register graph).steps
  | spawn h => exact (Step.spawn h).steps
  | retire h => exact steps_retired h
  | reload h hr => exact (Step.reload h hr).steps

theorem Does.steps (h : Does allowed e e') (ha : ∀ e d, allowed e d → d.isMeddling = false) :
    Steps e e' := by
  induction h with
  | refl => exact .refl
  | tail _ hd ih =>
    obtain ⟨d, hallowed, hdoing⟩ := hd
    exact ih.trans (hdoing.steps (ha _ d hallowed))

/-! ### Deeds one by one -/

/-- An instance begins a run only if it may, and nothing happens but what instances bring about. -/
def Prompted (begins : Engine β → Nat → Prop) (e : Engine β) : Deed β → Prop
  | .act p op => (∃ start, op.Opens p (.began start)) → begins e p.id
  | .brief | .note | .thin | .spawn _ | .retire => True
  | .forget | .clear | .reset | .pass | .unqueue | .allow | .register _ | .reload => False

/-- It is so with commands, by which no instance is updated. -/
def Commanded (begins : Engine β → Nat → Prop) (e : Engine β) (d : Deed β) : Prop :=
  Prompted begins e d ∧ d.isUpdate = false

variable {begins : Engine β → Nat → Prop}

theorem Does.prompted (h : Does (Commanded begins) e e') : Does (Prompted begins) e e' :=
  h.mono fun _ _ hd => hd.1

theorem does_noticeAll (e : Engine β) (notices : List Notice) :
    Does (Commanded begins) e (e.noticeAll notices) :=
  (Doing.note notices).does ⟨trivial, rfl⟩

theorem does_notice (e : Engine β) (notice : Notice) :
    Does (Commanded begins) e (e.notice notice) :=
  does_noticeAll e [notice]

/-- An instance is told something, and then does something. -/
theorem does_told_act {id fuel : Nat} {p : Playback β} (op : Playback.Operation)
    {r : Playback β × World β} (hp : e.instance? id = some p) {parameters : ParameterSet}
    {conversation : Option String} (notices : List Notice) (hop : op.isReset = false)
    (hu : op.isUpdate = false) (hr : ({ p with parameters, conversation } : Playback β).perform fuel
      (e.world.noticeAll notices) op = some r)
    (hb : (∃ start, op.Opens p (.began start)) → begins e id) :
    Does (Commanded begins) e (e.put r) := by
  refine (Doing.act (instance?_self hp) notices hop hr).does ⟨fun hopens => ?_, hu⟩
  rw [instance?_id hp]
  exact hb hopens

theorem does_act {id fuel : Nat} {p : Playback β} (op : Playback.Operation)
    {r : Playback β × World β} (hp : e.instance? id = some p) (hop : op.isReset = false)
    (hu : op.isUpdate = false) (hr : p.perform fuel e.world op = some r)
    (hb : (∃ start, op.Opens p (.began start)) → begins e id) :
    Does (Commanded begins) e (e.put r) :=
  does_told_act op hp [] hop hu hr hb

theorem does_modifyInstance {d : Deed β} (h : allowed e d) (id : Nat) {f : Playback β → Playback β}
    (hf : ∀ p, e.instance? p.id = some p → Doing e d (e.put (f p, e.world))) :
    Does allowed e (e.modifyInstance id fun p => (f p, [])) := by
  unfold modifyInstance
  cases hp : e.instance? id with
  | none => exact .refl
  | some p => exact (hf p (instance?_self hp)).does h

theorem does_foldl {ids : List Nat} {f : Engine β → Nat → Engine β}
    (hf : ∀ e id, Does allowed e (f e id)) (e : Engine β) : Does allowed e (ids.foldl f e) := by
  induction ids generalizing e with
  | nil => exact .refl
  | cons id rest ih => exact (hf e id).trans (ih (f e id))

/-! ### Instances that go -/

/-- An instance that is over is taken out. -/
theorem does_release {id : Nat} (h : ∀ p ∈ e.instances, p.id = id → p.phase = .finished) :
    Does (Commanded begins) e (e.release id) := by
  unfold release
  cases hp : e.instance? id with
  | none => exact .refl
  | some p =>
    have hmem := mem_instances_of_instance? hp
    have hid := instance?_id hp
    have hretires : e.Retires (·.id ≠ id) [p] := by
      refine ⟨fun q hq hkeep => Or.inl (h q hq (by simpa using hkeep)), fun q hq => ?_,
        fun q _ hkeep => ⟨p, List.mem_singleton.mpr rfl, ?_⟩⟩
      · obtain rfl := List.mem_singleton.mp hq
        exact ⟨hmem, by simpa using hid⟩
      · have hqid : q.id = id := by simpa using hkeep
        exact hid.trans hqid.symm
    exact (Doing.retire hretires).does ⟨trivial, rfl⟩

theorem commanded_killOne (e : Engine β) (id : Nat) :
    Does (Commanded begins) e (e.killOne id) := by
  unfold killOne
  cases hp : e.instance? id with
  | none => exact .refl
  | some p =>
    have hkill : p.perform 0 e.world .kill = some (p.kill e.world) := rfl
    have hact : Does (Commanded begins) e (e.put (p.kill e.world)) :=
      does_act .kill hp rfl rfl hkill fun ⟨_, hopens⟩ => False.elim hopens
    refine hact.trans (does_release fun q hq hid => ?_)
    -- The instance that is released has just been killed.
    obtain ⟨q', -, rfl⟩ := List.mem_map.mp hq
    have hpid : (p.kill e.world).1.id = id := (instance?_id hp : p.id = id)
    by_cases hne : q'.id = (p.kill e.world).1.id
    · rw [if_pos hne]
      rfl
    · rw [if_neg hne] at hid
      exact absurd (hid.trans hpid.symm) hne

theorem does_killOne (e : Engine β) (id : Nat) : Does (Prompted begins) e (e.killOne id) :=
  (commanded_killOne e id).prompted

omit [Behaviour β] in
/-- An instance that is done is not asked for any more. -/
theorem isIdle_of_isDone {p : Playback β} (h : e.isDone p = true) : e.IsIdle p := by
  unfold isDone at h
  unfold IsIdle
  cases hphase : p.phase <;> simp_all

theorem does_collect (e : Engine β) : Does (Commanded begins) e e.collect := by
  have hpurge : Does (Commanded begins) e (e.withRegistry e.world.registry.purge) :=
    (Doing.thin .purge fun _ hr => List.mem_of_mem_filter hr).does ⟨trivial, rfl⟩
  refine hpurge.trans ?_
  unfold collect
  -- Which instances are done is decided after the purge.
  generalize e.withRegistry e.world.registry.purge = e₁
  simp only [List.partition_eq_filter_filter]
  have hretires : e₁.Retires (fun p => !e₁.isDone p) (e₁.instances.filter e₁.isDone) := by
    refine ⟨fun p _ hkeep => isIdle_of_isDone (by simpa using hkeep), fun p hp => ?_,
      fun p hp hkeep => ⟨p, List.mem_filter.mpr ⟨hp, by simpa using hkeep⟩, rfl⟩⟩
    obtain ⟨hmem, hdone⟩ := List.mem_filter.mp hp
    exact ⟨hmem, by simp [hdone]⟩
  exact (Doing.retire hretires).does ⟨trivial, rfl⟩

end Cutscene.Engine
