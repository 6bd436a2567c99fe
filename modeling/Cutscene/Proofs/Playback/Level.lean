import Cutscene.Proofs.Playback.Calls

/-!
# Turns in step

`Turn.InStep` relates two turns of a playback at different times: their nodes are in the same state
and the same branches are under way, but clocks, worlds and the moments that branches wait for may
differ. Behaviours that mind nothing but their own state (`Secluded`) keep turns in step, and what
they are called for is the same on both sides: there is one lemma for each thing a turn can do, and
`InStep.finish` and `InStep.advance` put them together. On one of the two sides a pause may have
been asked for; then the turns part as soon as a node is done (`Turn.RestsAt`).
-/

namespace Cutscene

variable {β : Type}

/-! ### Behaviours that mind nothing else -/

/-- Two contexts of one node, at different times. -/
def Context.SameNode (ctx ctx' : Context) : Prop :=
  ctx' = { ctx with
    clock := ctx'.clock, isGraphRunning := ctx'.isGraphRunning, commands := ctx'.commands }

/-- Behaviours that take one output at a time and depend on nothing but their own state: not on
variables, nor on the time, on other graphs or on what waits to be done to them. -/
structure Secluded [Behaviour β] (S : β → Prop) : Prop where
  fansOut : ∀ {b}, S b → Behaviour.fansOut b = false
  assign : ∀ {b}, S b → ∀ parameters, S (Behaviour.assign parameters b)
  run : ∀ {b}, S b → ∀ ctx vars, S (Behaviour.run ctx vars b).behaviour
  choose : ∀ {b}, S b → ∀ ctx vars, S (Behaviour.choose ctx vars b).behaviour
  runs : ∀ {b}, S b → ∀ {ctx ctx' : Context} (vars vars' : Variables), ctx.SameNode ctx' →
    (Behaviour.run ctx' vars' b).behaviour = (Behaviour.run ctx vars b).behaviour ∧
      (Behaviour.run ctx' vars' b).running = (Behaviour.run ctx vars b).running ∧
      (Behaviour.run ctx' vars' b).wait = (Behaviour.run ctx vars b).wait
  chooses : ∀ {b}, S b → ∀ {ctx ctx' : Context} (vars vars' : Variables), ctx.SameNode ctx' →
    (Behaviour.choose ctx' vars' b).behaviour = (Behaviour.choose ctx vars b).behaviour ∧
      (Behaviour.choose ctx' vars' b).output = (Behaviour.choose ctx vars b).output

/-! ### Playbacks and turns -/

/-- A branch, apart from when it is taken up. -/
def Branch.untimed (b : Branch) : Branch := { b with wake := .now }

theorem Branch.untimed_eq_iff {b c : Branch} :
    b.untimed = c.untimed ↔ b.index = c.index ∧ b.step = c.step ∧ b.origin = c.origin := by
  simp [untimed]

/-- Two playbacks at the same point, neither of them paused. A pause may have been asked for of the
second one. -/
structure Playback.Level (asked : Bool) (p q : Playback β) : Prop where
  identity : q.identity = p.identity
  nodes : q.nodes = p.nodes
  parameters : q.parameters = p.parameters
  phase : q.phase = p.phase
  unpaused : p.phase ≠ .paused
  notSkipping : p.skipping = false
  notSkipping' : q.skipping = false
  pending : q.pending.map Branch.untimed = p.pending.map Branch.untimed
  unasked : p.phase = .running → p.pauseRequested = false
  requested : p.phase = .running →
    q.pauseRequested = asked ∧ (asked = true → q.resumePoints = [])

/-- Two turns at the same point, which have called the same behaviours since they began. -/
structure Turn.InStep (asked : Bool) (S : β → Prop) (w w' : World β) (calls : List (Call β))
    (t u : Turn β) : Prop where
  level : t.playback.Level asked u.playback
  behaves : t.playback.Behaves S
  ready : u.ready.map Branch.untimed = t.ready.map Branch.untimed
  calls_eq : t.world.calls = w.calls ++ calls
  calls_eq' : u.world.calls = w'.calls ++ calls

namespace Playback.Level

variable {asked : Bool} {p q : Playback β}

theorem id_eq (h : p.Level asked q) : q.id = p.id := congrArg Identity.id h.identity

theorem graph_eq (h : p.Level asked q) : q.graph = p.graph := congrArg Identity.graph h.identity

theorem settings_eq (h : p.Level asked q) : q.settings = p.settings :=
  congrArg Identity.settings h.identity

/-- A playback that neither skips nor is paused or asked to is level with itself. -/
theorem refl (hs : p.skipping = false) (hpaused : p.phase ≠ .paused)
    (hp : p.phase = .running → p.pauseRequested = false) : p.Level false p where
  identity := rfl
  nodes := rfl
  parameters := rfl
  phase := rfl
  unpaused := hpaused
  notSkipping := hs
  notSkipping' := hs
  pending := rfl
  unasked := hp
  requested hrun := ⟨hp hrun, fun hasked => absurd hasked Bool.false_ne_true⟩

theorem symm (h : p.Level false q) : q.Level false p where
  identity := h.identity.symm
  nodes := h.nodes.symm
  parameters := h.parameters.symm
  phase := h.phase.symm
  unpaused := h.phase ▸ h.unpaused
  notSkipping := h.notSkipping'
  notSkipping' := h.notSkipping
  pending := h.pending.symm
  unasked hrun := (h.requested (h.phase.symm.trans hrun)).1
  requested hrun :=
    ⟨h.unasked (h.phase.symm.trans hrun), fun hasked => absurd hasked Bool.false_ne_true⟩

theorem behaves {S : β → Prop} (h : p.Level asked q) (hb : p.Behaves S) : q.Behaves S := by
  unfold Behaves
  rw [h.nodes]
  exact hb

/-- The same change of a node on both sides. -/
theorem modifyNode (h : p.Level asked q) (index : Nat) {f g : Node β → Node β}
    (hfg : ∀ n, g n = f n) : (p.modifyNode index f).Level asked (q.modifyNode index g) where
  identity := h.identity
  nodes := by
    obtain rfl : g = f := funext hfg
    change q.nodes.modify index g = p.nodes.modify index g
    rw [h.nodes]
  parameters := h.parameters
  phase := h.phase
  unpaused := h.unpaused
  notSkipping := h.notSkipping
  notSkipping' := h.notSkipping'
  pending := h.pending
  unasked := h.unasked
  requested := h.requested

end Playback.Level

namespace Turn

open Playback

variable {asked : Bool} {S : β → Prop} {w w' : World β} {calls : List (Call β)} {t u : Turn β}

namespace InStep

theorem ready_eq_nil_iff (h : InStep asked S w w' calls t u) : u.ready = [] ↔ t.ready = [] := by
  rw [← List.map_eq_nil_iff (f := Branch.untimed), h.ready, List.map_eq_nil_iff]

theorem pending_eq_nil_iff (h : InStep asked S w w' calls t u) :
    u.playback.pending = [] ↔ t.playback.pending = [] := by
  rw [← List.map_eq_nil_iff (f := Branch.untimed), h.level.pending, List.map_eq_nil_iff]

/-- A turn begins in step with another one if their playbacks are level. -/
theorem of_level {p q : Playback β} (h : p.Level asked q) (hb : p.Behaves S)
    {ready ready' : List Branch}
    (hr : ready'.map Branch.untimed = ready.map Branch.untimed) (w w' : World β) :
    InStep asked S w w' [] ⟨p, w, ready⟩ ⟨q, w', ready'⟩ :=
  ⟨h, hb, hr, (List.append_nil _).symm, (List.append_nil _).symm⟩

theorem symm (h : InStep false S w w' calls t u) : InStep false S w' w calls u t where
  level := h.level.symm
  behaves := h.level.behaves h.behaves
  ready := h.ready.symm
  calls_eq := h.calls_eq'
  calls_eq' := h.calls_eq

/-! ### The end of a run -/

theorem endRun (h : InStep asked S w w' calls t u) :
    InStep asked S w w' calls t.endRun u.endRun where
  level := {
    identity := h.level.identity
    nodes := h.level.nodes
    parameters := h.level.parameters
    phase := rfl
    unpaused := by simp [Turn.endRun]
    notSkipping := rfl
    notSkipping' := rfl
    pending := rfl
    unasked := fun hrun => by simp [Turn.endRun] at hrun
    requested := fun hrun => by simp [Turn.endRun] at hrun }
  behaves := h.behaves
  ready := h.ready
  calls_eq := t.calls_endRun.trans h.calls_eq
  calls_eq' := u.calls_endRun.trans h.calls_eq'

theorem settle (h : InStep asked S w w' calls t u) :
    InStep asked S w w' calls t.settle u.settle := by
  by_cases hgo : t.playback.phase ≠ .running ∨ t.ready ≠ [] ∨ t.playback.pending ≠ []
  · have hgo' : u.playback.phase ≠ .running ∨ u.ready ≠ [] ∨ u.playback.pending ≠ [] := by
      rw [h.level.phase, ne_eq u.ready, ne_eq u.playback.pending, h.ready_eq_nil_iff,
        h.pending_eq_nil_iff]
      exact hgo
    have hstay : ∀ t : Turn β,
        t.playback.phase ≠ .running ∨ t.ready ≠ [] ∨ t.playback.pending ≠ [] → t.settle = t := by
      intro t ht
      unfold Turn.settle
      rw [if_pos]
      rcases ht with ht | ht | ht <;> simp [ht]
    rw [hstay t hgo, hstay u hgo']
    exact h
  · -- Nothing is under way. What was asked for of the second playback has left no resume point.
    rw [not_or, not_or, not_not, not_not, not_not] at hgo
    obtain ⟨hrun, hr, hp⟩ := hgo
    have hend : t.settle = t.endRun := by
      unfold Turn.settle
      rw [if_neg (by simp [hrun, hr, hp]), if_neg (by simp [h.level.unasked hrun])]
    have hend' : u.settle = u.endRun := by
      obtain ⟨hasked, hpoints⟩ := h.level.requested hrun
      unfold Turn.settle
      rw [if_neg (by simp [h.level.phase, hrun, h.ready_eq_nil_iff.mpr hr,
        h.pending_eq_nil_iff.mpr hp]), if_neg]
      rw [hasked]
      cases asked
      · simp
      · simp [hpoints rfl]
    rw [hend, hend']
    exact h.endRun

/-! ### Branches -/

theorem push (h : InStep asked S w w' calls t u) {b b' : Branch} (hb : b'.untimed = b.untimed) :
    InStep asked S w w' calls (t.push b) (u.push b') where
  level := h.level
  behaves := h.behaves
  ready := by
    simp only [Turn.push, List.map_append, h.ready, List.map_cons, hb]
  calls_eq := h.calls_eq
  calls_eq' := h.calls_eq'

theorem defer (h : InStep asked S w w' calls t u) {b b' : Branch} (hb : b'.untimed = b.untimed) :
    InStep asked S w w' calls (t.defer b) (u.defer b') where
  level := { h.level with
    pending := by
      simp only [Turn.defer, List.map_append, h.level.pending, List.map_cons, hb] }
  behaves := h.behaves
  ready := h.ready
  calls_eq := h.calls_eq
  calls_eq' := h.calls_eq'

theorem suspend (h : InStep asked S w w' calls t u) (index : Nat) (wait : Float32) :
    InStep asked S w w' calls (t.suspend index wait) (u.suspend index wait) :=
  h.defer (Branch.untimed_eq_iff.mpr ⟨rfl, rfl, rfl⟩)

/-- A graph that starts itself, or a node that leads to itself, does so on both sides. -/
theorem follow (h : InStep asked S w w' calls t u) (index : Nat) (ending : Ending) :
    InStep asked S w w' calls (t.follow index ending).1 (u.follow index ending).1 ∧
      ((t.follow index ending).2 = none ∧ (u.follow index ending).2 = none ∨
        ∃ b b', (t.follow index ending).2 = some b ∧ (u.follow index ending).2 = some b' ∧
          b'.untimed = b.untimed ∧ (b'.wake = .now ↔ b.wake = .now)) := by
  cases ending with
  | next => exact ⟨h, Or.inr ⟨_, _, rfl, rfl, rfl, Iff.rfl⟩⟩
  | stop => exact ⟨h, Or.inl ⟨rfl, rfl⟩⟩
  | goto target =>
    refine ⟨h, Or.inr ⟨_, _, rfl, rfl, Branch.untimed_eq_iff.mpr ⟨rfl, rfl, rfl⟩, ?_⟩⟩
    -- That a node lets a tick pass before it runs again depends on skipping alone.
    simp only [h.level.notSkipping, h.level.notSkipping']
  | start graph =>
    by_cases hg : graph = t.playback.graph
    · have hg' : graph = u.playback.graph := hg.trans h.level.graph_eq.symm
      simp only [Turn.follow, if_pos hg, if_pos hg']
      refine ⟨h, Or.inr ⟨_, _, rfl, rfl, Branch.untimed_eq_iff.mpr ⟨rfl, rfl, rfl⟩, ?_⟩⟩
      simp only [h.level.notSkipping, h.level.notSkipping', h.level.settings_eq]
      -- Both have the same delay, though their clocks may differ.
      split_ifs
      · simp [after]
      · exact Iff.rfl
    · have hg' : graph ≠ u.playback.graph := fun heq => hg (heq.trans h.level.graph_eq)
      simp only [Turn.follow, if_neg hg, if_neg hg']
      exact ⟨⟨h.level, h.behaves, h.ready, h.calls_eq, h.calls_eq'⟩, by simp⟩

theorem followAll_singleton (h : InStep asked S w w' calls t u) (index : Nat) (ending : Ending) :
    InStep asked S w w' calls (t.followAll index [ending]).1 (u.followAll index [ending]).1 ∧
      (u.followAll index [ending]).2 = (t.followAll index [ending]).2 := by
  obtain ⟨hstep, hbranch⟩ := h.follow index ending
  unfold Turn.followAll
  rcases ht : t.follow index ending with ⟨t₁, o⟩
  rcases hu : u.follow index ending with ⟨u₁, o'⟩
  rw [ht, hu] at hstep hbranch
  rcases hbranch with ⟨rfl, rfl⟩ | ⟨b, b', rfl, rfl, hb, hnow⟩
  · exact ⟨hstep, rfl⟩
  · dsimp only [Turn.followAll]
    refine ⟨?_, rfl⟩
    by_cases hw : b.wake = .now
    · rw [if_pos hw, if_pos (hnow.mpr hw)]
      exact hstep.push hb
    · rw [if_neg hw, if_neg (fun h' => hw (hnow.mp h'))]
      exact hstep.defer hb

/-! ### Calls -/

section

variable [Behaviour β]

/-- The same call on both sides has the same effect on the node. -/
theorem ran (hS : Secluded S) (h : InStep asked S w w' calls t u) (index : Nat) (running : Bool)
    {b : β} (hb : S b) :
    InStep asked S w w' (calls ++ [t.call (if running then .poll else .run) index b])
      (t.ran index running b) (u.ran index running b) ∧
    (u.runOutcome index running b).running = (t.runOutcome index running b).running ∧
    (u.runOutcome index running b).wait = (t.runOutcome index running b).wait := by
  -- Of its surroundings such a behaviour heeds only what both have in common.
  have hsame : (t.context index running).SameNode (u.context index running) := by
    simp only [Context.SameNode, context, h.level.id_eq, h.level.graph_eq, h.level.notSkipping,
      h.level.notSkipping']
  obtain ⟨hbehaviour, hrunning, hwait⟩ := hS.runs hb t.world.vars u.world.vars hsame
  have hcall : u.call (if running then .poll else .run) index b =
      t.call (if running then .poll else .run) index b := by
    simp only [call, h.level.id_eq, h.level.graph_eq, h.level.notSkipping, h.level.notSkipping']
  refine ⟨⟨h.level.modifyNode index fun n => ?_, h.behaves.modifyNode fun n hn c hc => ?_, h.ready,
    ?_, ?_⟩, hrunning, hwait⟩
  · -- Equal outcomes are put into equal nodes.
    rw [runOutcome, runOutcome, hbehaviour, hrunning]
  · obtain rfl := Option.some.inj hc
    exact hS.run hb _ _
  · rw [calls_ran, h.calls_eq, List.append_assoc]
  · rw [calls_ran, h.calls_eq', List.append_assoc, hcall]

omit [Behaviour β] in
theorem endingAt (h : InStep asked S w w' calls t u) (node : Node β) (output : Int) :
    InStep asked S w w' calls (t.endingAt node output).1 (u.endingAt node output).1 ∧
      (u.endingAt node output).2 = (t.endingAt node output).2 := by
  unfold Turn.endingAt
  split
  · exact ⟨h, rfl⟩
  · refine ⟨⟨h.level, h.behaves, h.ready, ?_, ?_⟩, rfl⟩
    · exact (World.calls_notice _ _).trans h.calls_eq
    · exact (World.calls_notice _ _).trans h.calls_eq'

/-- The same question on both sides has the same answer. -/
theorem chosen (hS : Secluded S) (h : InStep asked S w w' calls t u) (index : Nat) (node : Node β)
    {b : β} (hb : S b) :
    InStep asked S w w' (calls ++ [t.call .choose index b]) (t.chosen index node b)
      (u.chosen index node b) ∧
    (u.choice index b).output = (t.choice index b).output := by
  have hsame : (t.choiceContext index).SameNode (u.choiceContext index) := by
    simp only [Context.SameNode, choiceContext, context, h.level.id_eq, h.level.graph_eq,
      h.level.notSkipping, h.level.notSkipping']
  obtain ⟨hbehaviour, houtput⟩ := hS.chooses hb t.world.vars u.world.vars hsame
  have hcall : u.call .choose index b = t.call .choose index b := by
    simp only [call, h.level.id_eq, h.level.graph_eq, h.level.notSkipping, h.level.notSkipping']
  -- Either turn makes the same call, however its world got there.
  have hcalls : ∀ t : Turn β, (t.chosen index node b).world.calls =
      t.world.calls ++ [t.call .choose index b] := fun t =>
    (World.calls_absorbChoice _ _).trans (World.calls_note_call _ _)
  refine ⟨⟨h.level.modifyNode index fun n => ?_, h.behaves.modifyNode fun n hn c hc => ?_, h.ready,
    ?_, ?_⟩, houtput⟩
  · rw [choice, choice, hbehaviour, houtput, h.level.notSkipping, h.level.notSkipping']
  · obtain rfl := Option.some.inj hc
    exact hS.choose hb _ _
  · rw [hcalls, h.calls_eq, List.append_assoc]
  · rw [hcalls, h.calls_eq', List.append_assoc, hcall]

/-- A node that takes one output at a time takes the same one on both sides. -/
theorem endings (hS : Secluded S) (h : InStep asked S w w' calls t u) (index : Nat)
    {node : Node β} (hnode : ∀ b, node.behaviour = some b → S b) :
    InStep asked S w w' (calls ++ (t.question? index node).toList) (t.endings index node).1
      (u.endings index node).1 ∧
    ∃ ending, (t.endings index node).2 = [ending] ∧ (u.endings index node).2 = [ending] := by
  unfold Turn.endings question?
  cases hb : node.behaviour with
  | none =>
    dsimp only
    rw [Option.toList_none, List.append_nil]
    exact ⟨h, .stop, rfl, rfl⟩
  | some b =>
    dsimp only
    rw [hS.fansOut (hnode b hb), Bool.false_and, if_neg Bool.false_ne_true,
      if_neg Bool.false_ne_true, if_neg Bool.false_ne_true]
    by_cases hnone : Behaviour.outputs b = 0
    · rw [resolve_of_outputs_eq_zero t index node hnone,
        resolve_of_outputs_eq_zero u index node hnone,
        if_pos hnone, Option.toList_none, List.append_nil]
      exact ⟨h, .stop, rfl, rfl⟩
    · -- Only a skip takes an output again without asking.
      have hm : t.recalled? node b = none := by simp [recalled?, h.level.notSkipping]
      have hm' : u.recalled? node b = none := by simp [recalled?, h.level.notSkipping']
      obtain ⟨hchosen, houtput⟩ := h.chosen hS index node (hnode b hb)
      obtain ⟨hend, hending⟩ := hchosen.endingAt node (t.choice index b).output
      rw [resolve_of_choice index hnone hm, resolve_of_choice index hnone hm', if_neg hnone, hm,
        houtput]
      exact ⟨hend, _, rfl, by rw [hending]⟩

theorem leave (hS : Secluded S) (h : InStep asked S w w' calls t u) (index : Nat) {node : Node β}
    (hnode : ∀ b, node.behaviour = some b → S b) :
    InStep asked S w w' (calls ++ (t.question? index node).toList) (t.leave index node)
      (u.leave index node) := by
  obtain ⟨hstep, ending, hending, hending'⟩ := h.endings hS index hnode
  obtain ⟨hfollow, hfound⟩ := hstep.followAll_singleton index ending
  unfold Turn.leave
  rw [hending, hending']
  rcases ht : (t.endings index node).1.followAll index [ending] with ⟨t', found⟩
  rcases hu : (u.endings index node).1.followAll index [ending] with ⟨u', found'⟩
  rw [ht, hu] at hfollow hfound
  dsimp only at hfollow hfound
  subst hfound
  cases found'
  · exact hfollow.settle
  · exact hfollow

omit [Behaviour β] in
theorem rest (h : InStep asked S w w' calls t u) (index : Nat) :
    InStep asked S w w' calls (t.rest index) (u.rest index) where
  level := h.level.modifyNode index fun _ => rfl
  behaves := h.behaves.modifyNode fun n hn b hb => h.behaves n hn b hb
  ready := h.ready
  calls_eq := h.calls_eq
  calls_eq' := h.calls_eq'

/-- A node that is done leads on the same way on both sides, unless a pause has been asked for. -/
theorem finish (hS : Secluded S) (h : InStep false S w w' calls t u)
    (hrun : t.playback.phase = .running) (index : Nat) :
    InStep false S w w' (calls ++ t.asked index) (t.finish index) (u.finish index) := by
  have hnodes := h.level.nodes
  have hp := h.level.unasked hrun
  obtain ⟨hp', -⟩ := h.level.requested hrun
  unfold asked
  rw [hp, if_neg Bool.false_ne_true]
  cases hn : t.playback.nodes[index]? with
  | none =>
    rw [finish_of_none hn, finish_of_none (hnodes ▸ hn), Option.bind_none, Option.toList_none,
      List.append_nil]
    exact h.settle
  | some node =>
    rw [finish_of_following hn hp, finish_of_following (hnodes ▸ hn) hp', Option.bind_some]
    exact (h.rest index).leave hS index (h.behaves node (List.mem_of_getElem? hn))

end

end InStep

/-! ### One branch -/

/-- What becomes of two turns in step as each takes up the same branch: they stay in step, or both
are done with a node. -/
inductive StepsOn [Behaviour β] (asked : Bool) (S : β → Prop) (w w' : World β)
    (calls : List (Call β)) (t : Turn β) : Turn β → Turn β → Prop
  | together {more : List (Call β)} {t' u' : Turn β}
    (h : InStep asked S w w' (calls ++ more) t' u') :
    StepsOn asked S w w' calls t t' u'
  | done {more : List (Call β)} {t' u' : Turn β} (h : InStep asked S w w' (calls ++ more) t' u')
    (hrun : t'.playback.phase = .running) (hr : t'.ready = t.ready)
    (hp : t'.playback.pending = t.playback.pending) {index : Nat} {node : Node β}
    (hn : t'.playback.nodes[index]? = some node) :
    StepsOn asked S w w' calls t (t'.finish index) (u'.finish index)

section

variable [Behaviour β]

theorem secluded_assigned (hS : Secluded S) (t : Turn β) {b : β} (hb : S b) : S (t.assigned b) := by
  unfold Turn.assigned
  split_ifs
  · exact hb
  · exact hS.assign hb _

/-- A node that is run goes on waiting or is done, on both sides. -/
theorem StepsOn.ran (hS : Secluded S) (h : InStep asked S w w' calls t u)
    (hrun : t.playback.phase = .running) {index : Nat} {node : Node β}
    (hn : t.playback.nodes[index]? = some node) (running : Bool) {b : β} (hb : S b)
    (waits : Bool → Float32 → Bool) :
    StepsOn asked S w w' calls t
      (if waits (t.runOutcome index running b).running (t.runOutcome index running b).wait then
        (t.ran index running b).suspend index (t.runOutcome index running b).wait
      else (t.ran index running b).finish index)
      (if waits (u.runOutcome index running b).running (u.runOutcome index running b).wait then
        (u.ran index running b).suspend index (u.runOutcome index running b).wait
      else (u.ran index running b).finish index) := by
  obtain ⟨hran, hrunning, hwait⟩ := h.ran hS index running hb
  rw [hrunning, hwait]
  split_ifs
  · exact .together (hran.suspend index _)
  · exact .done (t := t) hran hrun rfl rfl (getElem?_ran hn running b)

theorem stepsOn_finish (h : InStep asked S w w' calls t u) (hrun : t.playback.phase = .running)
    (index : Nat) : StepsOn asked S w w' calls t (t.finish index) (u.finish index) := by
  have hnone : InStep asked S w w' (calls ++ []) t u := by
    rw [List.append_nil]
    exact h
  cases hn : t.playback.nodes[index]? with
  | none =>
    rw [finish_of_none hn, finish_of_none (h.level.nodes ▸ hn)]
    exact .together hnone.settle
  | some node => exact .done hnone hrun rfl rfl hn

theorem stepsOn_visit (hS : Secluded S) (h : InStep asked S w w' calls t u)
    (hrun : t.playback.phase = .running) (index : Nat) :
    StepsOn asked S w w' calls t (t.visit index) (u.visit index) := by
  have hnone : InStep asked S w w' (calls ++ []) t u := by
    rw [List.append_nil]
    exact h
  have hnodes := h.level.nodes
  have hhop := hop_of_not_skipping h.level.notSkipping
  have hhop' := hop_of_not_skipping h.level.notSkipping'
  unfold visit
  rw [hhop, hhop']
  dsimp only
  rw [hnodes]
  cases hn : t.playback.nodes[index]? with
  -- Both lose the branch.
  | none => exact .together hnone.settle
  | some node =>
    dsimp only
    cases he : node.enabled with
    -- Both pass the node over.
    | false => exact .together (hnone.push rfl)
    | true =>
      cases hb : node.behaviour with
      | none => exact .together (hnone.push rfl)
      | some b =>
        -- Equal parameters are handed to the behaviour.
        have hassigned : u.assigned b = t.assigned b := by
          unfold assigned
          rw [h.level.parameters]
        have hsecluded := secluded_assigned hS t (h.behaves node (List.mem_of_getElem? hn) b hb)
        dsimp only
        rw [enter_of_playing h.level.notSkipping, enter_of_playing h.level.notSkipping', hassigned]
        exact .ran hS h hrun hn false hsecluded fun running wait => running && wait != 0

theorem stepsOn_poll (hS : Secluded S) (h : InStep asked S w w' calls t u)
    (hrun : t.playback.phase = .running) (index : Nat) :
    StepsOn asked S w w' calls t (t.poll index) (u.poll index) := by
  cases hn : t.playback.nodes[index]? with
  | none =>
    have hnone := h.settle
    rw [← List.append_nil calls] at hnone
    rw [poll_of_none hn, poll_of_none (h.level.nodes ▸ hn)]
    exact .together hnone
  | some node =>
    have hn' : u.playback.nodes[index]? = some node := h.level.nodes ▸ hn
    cases hb : node.behaviour with
    | none =>
      rw [poll_of_behaviour_none hn hb, poll_of_behaviour_none hn' hb]
      exact stepsOn_finish h hrun index
    | some b =>
      rw [poll_of_some hn hb, poll_of_some hn' hb]
      exact .ran hS h hrun hn node.running (h.behaves node (List.mem_of_getElem? hn) b hb)
        fun running _ => running

/-- Turns in step that take up the same branch. -/
theorem stepsOn_advance (hS : Secluded S) (h : InStep asked S w w' calls t u)
    (hrun : t.playback.phase = .running) {b b' : Branch} (hb : b'.untimed = b.untimed) :
    StepsOn asked S w w' calls t (t.advance b) (u.advance b') := by
  obtain ⟨hindex, hstep, -⟩ := Branch.untimed_eq_iff.mp hb
  unfold advance
  rw [hindex, hstep]
  cases b.step with
  | visit => exact stepsOn_visit hS h hrun b.index
  | poll => exact stepsOn_poll hS h hrun b.index
  | resolve => exact stepsOn_finish h hrun b.index

/-! ### A whole turn -/

/-- Two turns in step of which none is asked to pause take the same branch in step. -/
theorem InStep.advance (hS : Secluded S) (h : InStep false S w w' calls t u)
    (hrun : t.playback.phase = .running) {b b' : Branch} (hb : b'.untimed = b.untimed) :
    ∃ more, InStep false S w w' (calls ++ more) (t.advance b) (u.advance b') := by
  have hsteps := stepsOn_advance hS h hrun hb
  generalize t.advance b = t' at hsteps ⊢
  generalize u.advance b' = u' at hsteps ⊢
  cases hsteps with
  | together h => exact ⟨_, h⟩
  | @done more t' u' h hrun' _ _ index node _ =>
    have hdone := h.finish hS hrun' index
    rw [List.append_assoc] at hdone
    exact ⟨_, hdone⟩

omit [Behaviour β] in
/-- The next branch is the same on both sides. -/
theorem InStep.next (h : InStep asked S w w' calls t u) {b : Branch} {rest : List Branch}
    (hready : t.ready = b :: rest) :
    ∃ b' rest', u.ready = b' :: rest' ∧ b'.untimed = b.untimed ∧
      InStep asked S w w' calls { t with ready := rest } { u with ready := rest' } := by
  have hmap := h.ready
  rw [hready, List.map_cons, List.map_eq_cons_iff] at hmap
  obtain ⟨b', rest', hready', hb, hrest⟩ := hmap
  exact ⟨b', rest', hready', hb, h.level, h.behaves, hrest, h.calls_eq, h.calls_eq'⟩

omit [Behaviour β] in
theorem InStep.over (h : InStep asked S w w' calls t u)
    (hover : t.ready = [] ∨ t.playback.phase ≠ .running) :
    u.ready = [] ∨ u.playback.phase ≠ .running := by
  rw [h.ready_eq_nil_iff, h.level.phase]
  exact hover

/-- How two turns in step end. -/
structure EndsInStep (asked : Bool) (S : β → Prop) (w w' : World β) (calls : List (Call β))
    (r r' : Playback β × World β) : Prop where
  level : r.1.Level asked r'.1
  behaves : r.1.Behaves S
  calls_eq : ∃ more, r.2.calls = w.calls ++ (calls ++ more) ∧
    r'.2.calls = w'.calls ++ (calls ++ more)

omit [Behaviour β] in
theorem InStep.ends (h : InStep asked S w w' calls t u) :
    EndsInStep asked S w w' calls t.view u.view where
  level := h.level
  behaves := h.behaves
  calls_eq := ⟨[], by rw [List.append_nil]; exact ⟨h.calls_eq, h.calls_eq'⟩⟩

theorem InStep.run_of_over {fuel : Nat} {r : Playback β × World β}
    (h : InStep asked S w w' calls t u) (hover : t.ready = [] ∨ t.playback.phase ≠ .running)
    (hr : t.run fuel = some r) :
    ∃ r', u.run fuel = some r' ∧ EndsInStep asked S w w' calls r r' := by
  rw [Turn.run_of_over hover] at hr
  obtain rfl := Option.some.inj hr
  exact ⟨_, Turn.run_of_over (h.over hover) fuel, h.ends⟩

/-- Two turns in step come to their ends together. -/
theorem InStep.run (hS : Secluded S) {fuel : Nat} {r : Playback β × World β}
    (h : InStep false S w w' calls t u) (hr : t.run fuel = some r) :
    ∃ r', u.run fuel = some r' ∧ EndsInStep false S w w' calls r r' := by
  induction fuel generalizing t u calls with
  | zero =>
    rcases t.over_or_ready with hover | ⟨hrun, b, rest, hready⟩
    · exact h.run_of_over hover hr
    · rw [run_zero_of_ready_eq_cons hrun hready] at hr
      simp at hr
  | succ fuel ih =>
    rcases t.over_or_ready with hover | ⟨hrun, b, rest, hready⟩
    · exact h.run_of_over hover hr
    · obtain ⟨b', rest', hready', hb, hnext⟩ := h.next hready
      obtain ⟨more, hmore⟩ := hnext.advance hS hrun hb
      rw [run_of_ready_eq_cons hrun hready] at hr
      obtain ⟨r', hr', hends⟩ := ih hmore hr
      obtain ⟨rest, hcalls, hcalls'⟩ := hends.calls_eq
      rw [List.append_assoc] at hcalls hcalls'
      -- The calls of this branch come before those of the rest.
      refine ⟨r', ?_, hends.level, hends.behaves, more ++ rest, hcalls, hcalls'⟩
      rw [run_of_ready_eq_cons (h.level.phase.trans hrun) hready']
      exact hr'

end

end Turn

end Cutscene
