import Cutscene.Proofs.Engine.Resuming

/-!
# Requests that are refused

Some of what a host asks of an engine may be refused. `Engine.Request` lists these requests,
`Engine.ask` makes one, and `Engine.refusal?` says from the engine alone why one is refused. A
request is refused for no other reason (`ask_eq_refused_iff`): once the first look at it has not
found anything wrong, the graph that it is about gets an instance whenever it needs one
(`exists_spawn`, `resumeRestored_eq`). So a refusal comes before anything has been done.
-/

namespace Cutscene

variable {β : Type}

/-- What the log says of a refusal. -/
def EngineError.notices : EngineError → List Notice
  | .disabled _ => [.graphDisabled]
  | _ => []

namespace Engine

/-- What a host can ask of an engine and be refused. -/
inductive Request where
  | trigger (graph : String) (trigger : Trigger)
  | interact (graph : String)
  | interactFrom (graph : String) (start : Nat) (queue : Bool)
  | runFromIndex (graph : String) (start : Nat)
  | skip (id : Nat)
  | skipFrom (id start : Nat)
  | pause (id : Nat)
  | resume (id start : Nat) (points : List Nat) (parameters : String) (rerun : Bool)
  | resumePaused (graph : String) (rerun : Bool)
  | kill (id : Nat)
  | resetRecord (id : Nat) (unqueue : Bool)

/-- Why nothing can be asked of a graph. -/
def graphRefusal? (e : Engine β) (graph : String) : Option EngineError :=
  if e.graphs.contains graph then none else some (.unknownGraph graph)

/-- Why a graph that is known cannot be triggered. -/
def enabledRefusal? (e : Engine β) (graph : String) : Option EngineError :=
  if e.isEnabled graph then none else some (.disabled graph)

/-- Why nothing can be asked of an instance. -/
def instanceRefusal? (e : Engine β) (id : Nat) : Option EngineError :=
  if (e.instance? id).isSome then none else some .unknownInstance

/-- Why nothing can be asked of a record. -/
def recordRefusal? (e : Engine β) (id : Nat) : Option EngineError :=
  if (e.world.registry.record? id).isSome then none else some .unknownInstance

/-- Why a request is refused. -/
def refusal? (e : Engine β) : Request → Option EngineError
  | .trigger graph _ | .interact graph | .interactFrom graph _ _ | .runFromIndex graph _ =>
    (e.graphRefusal? graph).or (e.enabledRefusal? graph)
  | .skip id | .skipFrom id _ | .pause id | .resume id _ _ _ _ | .kill id => e.instanceRefusal? id
  | .resumePaused graph _ => e.graphRefusal? graph
  | .resetRecord id _ => e.recordRefusal? id

/-- The refusal in an answer, if it is one. -/
def refusalIn {α : Type} : Except EngineError α → Option EngineError
  | .error error => some error
  | .ok _ => none

/-- The engines differ in notices at most: whatever runs, waits or is registered is the same, and
nothing has been heard of any instance. -/
structure SameButNotices (e e' : Engine β) : Prop where
  state : { e' with world := { e'.world with journal := e.world.journal } } = e
  journal : ∃ notices : List Notice,
    e'.world.journal = notices.map .notice ++ e.world.journal

theorem sameButNotices_noticeAll (e : Engine β) (notices : List Notice) :
    e.SameButNotices (e.noticeAll notices) := by
  have heq : (e.noticeAll notices).world =
      { e.world with journal := (notices.map .notice).reverse ++ e.world.journal } :=
    e.world.noticeAll_eq notices
  constructor
  · rw [heq]
    rfl
  · refine ⟨notices.reverse, ?_⟩
    rw [heq, List.map_reverse]

theorem SameButNotices.news {e e' : Engine β} (h : e.SameButNotices e') (id : Nat) :
    e.world.news e'.world id = [] := by
  obtain ⟨notices, hjournal⟩ := h.journal
  refine World.news_of_eventsOf_eq_append ?_
  have hnone : (notices.map (Entry.notice (β := β))).filterMap (Entry.kindFor? id) = [] := by
    simp [List.filterMap_eq_nil_iff, Entry.kindFor?]
  rw [World.eventsOf, hjournal, List.filterMap_append, hnone, List.nil_append, List.append_nil]
  rfl

variable [Behaviour β] {fuel : Nat} {e e' : Engine β} {error : EngineError}

/-- Makes a request; the answer is the engine that it leaves, and the refusal if there is one. -/
def ask (fuel : Nat) (e : Engine β) : Request → Option (Engine β × Option EngineError)
  | .trigger graph trigger => (e.trigger fuel graph trigger).map fun s => (s.1, refusalIn s.2)
  | .interact graph => (e.interact fuel graph).map fun s => (s.1, refusalIn s.2)
  | .interactFrom graph start queue =>
    (e.interactFrom fuel graph start queue).map fun s => (s.1, refusalIn s.2)
  | .runFromIndex graph start =>
    (e.runFromIndex fuel graph start).map fun s => (s.1, refusalIn s.2)
  | .skip id => (e.skip fuel id).map fun s => (s.1, refusalIn s.2)
  | .skipFrom id start => (e.skipFrom fuel id start).map fun s => (s.1, refusalIn s.2)
  | .pause id => (e.pause fuel id).map fun s => (s.1, refusalIn s.2)
  | .resume id start points parameters rerun =>
    (e.resume fuel id start points parameters rerun).map fun s => (s.1, refusalIn s.2)
  | .resumePaused graph rerun => (e.resumePaused fuel graph rerun).map fun s => (s.1, refusalIn s.2)
  | .kill id => (e.kill fuel id).map fun s => (s.1, refusalIn s.2)
  | .resetRecord id unqueue =>
    some ((e.resetRecord id unqueue).1, refusalIn (e.resetRecord id unqueue).2)

/-! ### One operation after the other -/

omit [Behaviour β] in
theorem refusalIn_eq_some {α : Type} {answer : Except EngineError α} :
    refusalIn answer = some error ↔ answer = .error error := by
  cases answer <;> simp [refusalIn]

omit [Behaviour β] in
theorem map_refusalIn_eq_some {α : Type} {answer : Option (Engine β × Except EngineError α)} :
    answer.map (fun s => (s.1, refusalIn s.2)) = some (e', some error) ↔
      answer = some (e', .error error) := by
  cases answer with
  | none => simp
  | some s =>
    rw [Option.map_some, Option.some.injEq, Option.some.injEq, Prod.ext_iff, Prod.ext_iff]
    exact and_congr_right fun _ => refusalIn_eq_some

omit [Behaviour β] in
/-- An answer that refuses is the refusal, and it leaves a notice at most. -/
theorem refused_iff {α : Type} (e : Engine β) (refusal : EngineError) :
    (some (e.noticeAll refusal.notices, .error refusal) :
        Option (Engine β × Except EngineError α)) = some (e', .error error) ↔
      some refusal = some error ∧ e' = e.noticeAll error.notices := by
  simp only [Option.some.injEq, Prod.mk.injEq, Except.error.injEq]
  constructor
  · rintro ⟨rfl, rfl⟩
    exact ⟨rfl, rfl⟩
  · rintro ⟨rfl, rfl⟩
    exact ⟨rfl, rfl⟩

/-- A graph that is known and enabled is not refused: it gets an instance. -/
theorem begin_eq_error_iff {graph : String} {trigger : Trigger} :
    e.begin fuel graph trigger = some (e', .error error) ↔
      (e.graphRefusal? graph).or (e.enabledRefusal? graph) = some error ∧
        e' = e.noticeAll error.notices := by
  unfold begin graphRefusal? enabledRefusal?
  by_cases hg : e.graphs.contains graph = true
  · by_cases hd : e.isEnabled graph = true
    · -- A graph that is known and enabled is started, and that is never refused.
      obtain ⟨e₁, id, p, hs, hp, -⟩ := exists_spawn hg
      simp only [hg, hd, hs, hp, Bool.not_true, Bool.false_eq_true, if_false, if_true,
        Option.or_none, reduceCtorEq, false_and, iff_false]
      intro h
      obtain ⟨r, -, hanswer⟩ := Option.map_eq_some_iff.mp h
      simp at hanswer
    · simp only [hg, hd, Bool.not_true, Bool.false_eq_true, if_false, if_true, Bool.not_false,
        Option.none_or]
      exact refused_iff e (.disabled graph)
  · simp only [hg, Bool.not_false, if_true, Bool.false_eq_true, if_false, Option.some_or]
    exact refused_iff e (.unknownGraph graph)

theorem trigger_eq_error_iff {graph : String} {trigger : Trigger} :
    e.trigger fuel graph trigger = some (e', .error error) ↔
      (e.graphRefusal? graph).or (e.enabledRefusal? graph) = some error ∧
        e' = e.noticeAll error.notices := by
  have hbegin : e.begin fuel graph trigger = some (e', .error error) ↔ _ := begin_eq_error_iff
  rw [← hbegin]
  constructor
  · intro h
    rcases trigger_cases h with ⟨refusal, hanswer, hrefused⟩ | ⟨e₁, id, hanswer, -⟩
    · rw [Except.error.inj hanswer]
      exact hrefused
    · simp at hanswer
  · intro h
    simp [Engine.trigger, h]

theorem onInstance_eq_error_iff {id : Nat}
    {f : Playback β → World β → Option (Playback β × World β)} :
    e.onInstance fuel id f = some (e', .error error) ↔
      e.instanceRefusal? id = some error ∧ e' = e.noticeAll error.notices := by
  unfold onInstance instanceRefusal?
  cases hp : e.instance? id with
  | none => exact refused_iff e .unknownInstance
  | some p =>
    simp only [Option.isSome_some, if_true, reduceCtorEq, false_and, iff_false]
    simp [Option.bind_eq_some_iff]

theorem kill_eq_error_iff {id : Nat} :
    e.kill fuel id = some (e', .error error) ↔
      e.instanceRefusal? id = some error ∧ e' = e.noticeAll error.notices := by
  unfold Engine.kill instanceRefusal?
  cases hp : e.instance? id with
  | none => exact refused_iff e .unknownInstance
  | some p =>
    simp only [Option.isSome_some, if_true, reduceCtorEq, false_and, iff_false]
    simp [Option.bind_eq_some_iff]

/-- The paused runs of a graph that is known are all resumed: none is refused an instance. -/
theorem resumePaused_eq_error_iff {graph : String} {rerun : Bool} :
    e.resumePaused fuel graph rerun = some (e', .error error) ↔
      e.graphRefusal? graph = some error ∧ e' = e.noticeAll error.notices := by
  unfold resumePaused graphRefusal?
  by_cases hg : e.graphs.contains graph = true
  · rw [resumePausedNow_of_contains hg]
    simp [hg, Option.bind_eq_some_iff]
  · have hnow : e.resumePausedNow fuel graph rerun = some (e, .error (.unknownGraph graph)) := by
      unfold resumePausedNow
      rw [if_pos (by simp [hg])]
    rw [hnow, if_neg hg]
    exact refused_iff e (.unknownGraph graph)

omit [Behaviour β] in
theorem resetRecord_eq_error_iff {id : Nat} {unqueue : Bool} :
    e.resetRecord id unqueue = (e', .error error) ↔
      e.recordRefusal? id = some error ∧ e' = e.noticeAll error.notices := by
  unfold Engine.resetRecord recordRefusal?
  cases hr : e.world.registry.record? id with
  | none => exact Option.some_inj.symm.trans (refused_iff e .unknownInstance)
  | some r => simp

/-! ### Any request -/

/-- A request is refused exactly if the first look at it finds why, and a refusal comes before
anything has been done. -/
theorem ask_eq_refused_iff {q : Request} :
    e.ask fuel q = some (e', some error) ↔
      e.refusal? q = some error ∧ e' = e.noticeAll error.notices := by
  cases q with
  | trigger graph trigger => exact map_refusalIn_eq_some.trans trigger_eq_error_iff
  | interact graph => exact map_refusalIn_eq_some.trans trigger_eq_error_iff
  | interactFrom graph start queue => exact map_refusalIn_eq_some.trans trigger_eq_error_iff
  | runFromIndex graph start => exact map_refusalIn_eq_some.trans trigger_eq_error_iff
  | skip id => exact map_refusalIn_eq_some.trans onInstance_eq_error_iff
  | skipFrom id start => exact map_refusalIn_eq_some.trans onInstance_eq_error_iff
  | pause id => exact map_refusalIn_eq_some.trans onInstance_eq_error_iff
  | resume id start points parameters rerun =>
    exact map_refusalIn_eq_some.trans onInstance_eq_error_iff
  | resumePaused graph rerun => exact map_refusalIn_eq_some.trans resumePaused_eq_error_iff
  | kill id => exact map_refusalIn_eq_some.trans kill_eq_error_iff
  | resetRecord id unqueue =>
    -- To reset a record is the only request that cannot run short of fuel.
    have hanswer : e.ask fuel (.resetRecord id unqueue) =
        (some (e.resetRecord id unqueue)).map fun s => (s.1, refusalIn s.2) := rfl
    rw [hanswer, map_refusalIn_eq_some, Option.some_inj]
    exact resetRecord_eq_error_iff

/-- Whatever state an engine is in, a request that is refused changes nothing: instances, parked
nodes, records, variables, waiting commands, disabled and registered graphs are as they were, and
nobody hears of anything; there may be a notice. It is refused for what there is to find before
anything is done, and such a request always returns. In particular, once a graph is known to be
there it gets an instance, when it is triggered and for each of its paused runs that come from a
save: none of them is refused halfway. -/
theorem refused_changes_nothing (fuel : Nat) (e : Engine β) (q : Request) (error : EngineError) :
    ((∃ e', e.ask fuel q = some (e', some error)) ↔ e.refusal? q = some error) ∧
    (∀ e', e.ask fuel q = some (e', some error) →
      e.SameButNotices e' ∧ ∀ id, e.world.news e'.world id = []) ∧
    ∀ graph, e.graphs.contains graph = true →
      (∃ s, e.spawn graph = .ok s) ∧
      ∀ rerun count e' answer, resumeRestored fuel rerun graph count e = some (e', answer) →
        ∃ ids, answer = .ok ids := by
  refine ⟨?_, ?_, ?_⟩
  · simp [ask_eq_refused_iff]
  · intro e' hr
    obtain ⟨-, rfl⟩ := ask_eq_refused_iff.mp hr
    have hsame := e.sameButNotices_noticeAll error.notices
    exact ⟨hsame, hsame.news⟩
  · -- A refusal by `spawn` halfway would have to be one of an unknown graph.
    intro graph hg
    obtain ⟨e₁, id, -, hs, -⟩ := exists_spawn hg
    refine ⟨⟨_, hs⟩, fun rerun count e' answer hr => ?_⟩
    rw [resumeRestored_eq hg] at hr
    obtain ⟨s, -, heq⟩ := Option.map_eq_some_iff.mp hr
    exact ⟨s.2, (Prod.mk.inj heq).2.symm⟩

/-- A disabled circle with two runs from a save: to trigger it is refused and changes nothing, but
it would get an instance, and its runs are resumed, one after the other, on that. -/
theorem refused_changes_nothing_disabled :
    (∃ e', (pausedCircles.setEnabled "circle" false).ask 9 (.interact "circle") =
        some (e', some (.disabled "circle")) ∧
      (pausedCircles.setEnabled "circle" false).SameButNotices e') ∧
    ∃ e' ids, resumeRestored 9 false "circle" 2 (pausedCircles.setEnabled "circle" false) =
      some (e', .ok ids) := by
  obtain ⟨hrefused, hsame, hknown⟩ := refused_changes_nothing 9
    (pausedCircles.setEnabled "circle" false) (.interact "circle") (.disabled "circle")
  obtain ⟨e', he'⟩ := hrefused.mpr rfl
  refine ⟨⟨e', he', (hsame e' he').1⟩, ?_⟩
  have hreturns : (resumeRestored 9 false "circle" 2
      (pausedCircles.setEnabled "circle" false)).isSome = true := by
    decide +kernel
  obtain ⟨⟨e'', answer⟩, hr⟩ := Option.isSome_iff_exists.mp hreturns
  obtain ⟨ids, rfl⟩ := (hknown "circle" contains_pausedCircles).2 false 2 e'' answer hr
  exact ⟨e'', ids, hr⟩

end Engine

end Cutscene
