import Cutscene.Proofs.Playback.Calls
import Cutscene.Proofs.Playback.Reached

/-!
# A turn under a pause

While a pause is requested a turn only brings to an end what is in flight. Where the run will go on
after a branch is known beforehand: `Playback.finishPoint?` is the node in which the branch
finishes, and `Playback.pausePoint?` what the branch adds to the resume points as the pause is asked
for. `Playback.Holds` keeps the account of it: every branch there was is still under way, or is a
resume point, or has run past the last node. By `Turn.pausesTo_run` a turn keeps the account, and by
`Turn.exists_run_of_holds` it comes to its end.
-/

namespace Cutscene

variable {β : Type}

/-- Behaviours were called to run and for nothing else, and all commands are theirs. -/
def Log.RunsOnly [Behaviour β] (log : Log β) : Prop :=
  ∃ outs : List (Outcome β), List.Forall₂ Outcome.IsOf outs log.calls ∧
    log.commands = outs.flatMap (·.commands)

theorem Log.runsOnly_nil [Behaviour β] (events : List Event.Kind) :
    (⟨events, [], []⟩ : Log β).RunsOnly := ⟨[], .nil, rfl⟩

theorem Log.RunsOnly.append [Behaviour β] {l l' : Log β} (h : l.RunsOnly) (h' : l'.RunsOnly) :
    (l ++ l').RunsOnly := by
  obtain ⟨outs, hcalls, hcommands⟩ := h
  obtain ⟨outs', hcalls', hcommands'⟩ := h'
  refine ⟨outs ++ outs', List.rel_append hcalls hcalls', ?_⟩
  rw [commands_append, hcommands, hcommands', List.flatMap_append]

namespace Playback

/-! ### Where a branch finishes -/

/-- Which nodes are not passed over. -/
def shape (p : Playback β) : List Bool := p.nodes.map (·.isRunnable)

/-- The first node from an index on that is not passed over. -/
def nextRunnable? (p : Playback β) (index : Nat) : Option Nat :=
  ((p.shape.drop index).idxOf? true).map (index + ·)

/-- The node in which a branch finishes, unless it runs past the last node. -/
def finishPoint? (p : Playback β) (b : Branch) : Option Nat :=
  match b.step with
  | .visit => p.nextRunnable? b.index
  | .poll | .resolve => if b.index < p.nodes.length then some b.index else none

theorem nextRunnable?_of_none {p : Playback β} {index : Nat} (h : p.nodes[index]? = none) :
    p.nextRunnable? index = none := by
  -- Behind the last node there is nothing to pass over.
  have hdrop : p.shape.drop index = [] := by
    rw [List.drop_eq_nil_iff, shape, List.length_map]
    exact List.getElem?_eq_none_iff.mp h
  rw [nextRunnable?, hdrop]
  rfl

theorem shape_drop {p : Playback β} {index : Nat} {node : Node β}
    (h : p.nodes[index]? = some node) :
    p.shape.drop index = node.isRunnable :: p.shape.drop (index + 1) := by
  obtain ⟨hlt, rfl⟩ := List.getElem?_eq_some_iff.mp h
  have hlt' : index < p.shape.length := by
    rw [shape, List.length_map]
    exact hlt
  rw [List.drop_eq_getElem_cons hlt']
  simp only [shape, List.getElem_map]

theorem nextRunnable?_of_runnable {p : Playback β} {index : Nat} {node : Node β}
    (h : p.nodes[index]? = some node) (hr : node.isRunnable = true) :
    p.nextRunnable? index = some index := by
  rw [nextRunnable?, shape_drop h, hr]
  rfl

/-- A node that is passed over leaves it to the next one. -/
theorem nextRunnable?_of_not_runnable {p : Playback β} {index : Nat} {node : Node β}
    (h : p.nodes[index]? = some node) (hr : node.isRunnable = false) :
    p.nextRunnable? index = p.nextRunnable? (index + 1) := by
  rw [nextRunnable?, nextRunnable?, shape_drop h, hr, List.idxOf?_cons]
  -- Counted from the next node on, the index is one less.
  simp only [Bool.false_beq, Bool.not_true, Bool.false_eq_true, if_false, Option.map_map]
  congr 1
  funext i
  simp only [Function.comp_apply]
  omega

/-- Only which nodes are passed over matters to where a branch finishes. -/
theorem finishPoint?_congr {p q : Playback β} (h : q.shape = p.shape) (b : Branch) :
    q.finishPoint? b = p.finishPoint? b := by
  have hlength : q.nodes.length = p.nodes.length := by
    have hmap := congrArg List.length h
    rw [shape, shape, List.length_map, List.length_map] at hmap
    exact hmap
  unfold finishPoint? nextRunnable?
  rw [h, hlength]

/-- Where the run will go on after a branch that waits as a pause is asked for: with the node that
led it on, or with the node in which it finishes. -/
def pausePoint? [Behaviour β] (p : Playback β) (b : Branch) : Option Nat :=
  (p.resumePoint? b).or (p.finishPoint? b)

/-! ### The account of a pause -/

/-- A playback under a pause with a number of branches under way. Every branch of those that there
were has its place: it has left a resume point, it has run past the last node, or it is still under
way. -/
structure Holds (p : Playback β) (branches : List Branch) (places : List (Option Nat)) : Prop where
  running : p.phase = .running
  notSkipping : p.skipping = false
  requested : p.pauseRequested = true
  accounts : ∃ past, (p.resumePoints.map some ++ List.replicate past none ++
    branches.map p.finishPoint?).Perm places

theorem Holds.perm {p : Playback β} {branches branches' : List Branch}
    {places places' : List (Option Nat)} (h : p.Holds branches places)
    (hb : branches.Perm branches') (hp : places.Perm places') : p.Holds branches' places' where
  running := h.running
  notSkipping := h.notSkipping
  requested := h.requested
  accounts := by
    obtain ⟨past, hpast⟩ := h.accounts
    exact ⟨past, (((hb.map _).append_left _).symm.trans hpast).trans hp⟩

/-- The account is only about phase, pause, resume points and shape. -/
theorem Holds.congr {p q : Playback β} {branches : List Branch} {places : List (Option Nat)}
    (h : p.Holds branches places) (hrun : q.phase = p.phase) (hskip : q.skipping = p.skipping)
    (hpause : q.pauseRequested = p.pauseRequested) (hpoints : q.resumePoints = p.resumePoints)
    (hshape : q.shape = p.shape) : q.Holds branches places where
  running := hrun.trans h.running
  notSkipping := hskip.trans h.notSkipping
  requested := hpause.trans h.requested
  accounts := by
    obtain ⟨past, hpast⟩ := h.accounts
    refine ⟨past, ?_⟩
    rw [hpoints, List.map_congr_left fun b _ => finishPoint?_congr hshape b]
    exact hpast

/-- A branch can be taken out of the account and put back later. -/
theorem holds_cons {p : Playback β} {b : Branch} {branches : List Branch}
    {places : List (Option Nat)} (h : p.Holds (b :: branches) places) :
    ∃ others, p.Holds branches others ∧ (p.finishPoint? b :: others).Perm places := by
  obtain ⟨past, hpast⟩ := h.accounts
  refine ⟨_, ⟨h.running, h.notSkipping, h.requested, past, .refl _⟩, ?_⟩
  exact List.perm_middle.symm.trans hpast

theorem Holds.cons {p : Playback β} {branches : List Branch} {places : List (Option Nat)}
    (h : p.Holds branches places) (b : Branch) :
    p.Holds (b :: branches) (p.finishPoint? b :: places) where
  running := h.running
  notSkipping := h.notSkipping
  requested := h.requested
  accounts := by
    obtain ⟨past, hpast⟩ := h.accounts
    exact ⟨past, List.perm_middle.trans (hpast.cons _)⟩

/-- A branch that runs past the last node has its place, too. -/
theorem Holds.pass {p : Playback β} {branches : List Branch} {places : List (Option Nat)}
    (h : p.Holds branches places) : p.Holds branches (none :: places) where
  running := h.running
  notSkipping := h.notSkipping
  requested := h.requested
  accounts := by
    obtain ⟨past, hpast⟩ := h.accounts
    refine ⟨past + 1, ?_⟩
    rw [List.replicate_succ, List.append_assoc, List.cons_append]
    refine List.perm_middle.trans (List.Perm.cons _ ?_)
    rw [← List.append_assoc]
    exact hpast

end Playback

namespace Turn

open Playback

/-! ### One branch -/

/-- Another branch of this turn joins the account. -/
theorem holds_push {t : Turn β} {places : List (Option Nat)}
    (h : t.playback.Holds t.inFlight places) (b : Branch) :
    (t.push b).playback.Holds (t.push b).inFlight (t.playback.finishPoint? b :: places) := by
  refine (h.cons b).perm ?_ (.refl _)
  change (b :: (t.ready ++ t.playback.pending)).Perm (t.ready ++ [b] ++ t.playback.pending)
  rw [List.append_assoc]
  exact List.perm_middle.symm

/-- Another branch that waits joins the account. -/
theorem holds_defer {t : Turn β} {places : List (Option Nat)}
    (h : t.playback.Holds t.inFlight places) (b : Branch) :
    (t.defer b).playback.Holds (t.defer b).inFlight (t.playback.finishPoint? b :: places) := by
  have hcons : (t.defer b).playback.Holds (b :: t.inFlight) (t.playback.finishPoint? b :: places) :=
    (h.cons b).congr rfl rfl rfl rfl rfl
  refine hcons.perm ?_ (.refl _)
  change (b :: (t.ready ++ t.playback.pending)).Perm (t.ready ++ (t.playback.pending ++ [b]))
  rw [← List.append_assoc]
  exact (List.perm_append_singleton _ _).symm

/-- A node that waits to go on has its place in itself. -/
theorem holds_suspend {t : Turn β} {places : List (Option Nat)} {index : Nat}
    (h : t.playback.Holds t.inFlight places) (hi : index < t.playback.nodes.length)
    (wait : Float32) :
    (t.suspend index wait).playback.Holds (t.suspend index wait).inFlight
      (some index :: places) := by
  have hpoint : ∀ wake : Wake,
      -- Whatever the branch waits for, it finishes in the node itself.
      t.playback.finishPoint? ⟨index, .poll, some index, wake⟩ = some index := fun _ => if_pos hi
  unfold suspend
  dsimp only
  generalize (if 0 < wait then _ else _) = wake
  rw [← hpoint wake]
  exact holds_defer h _

/-- A node that is done leaves its place as a resume point. -/
theorem holds_keep {t : Turn β} {places : List (Option Nat)}
    (h : t.playback.Holds t.inFlight places) (index : Nat) :
    ((t.rest index).keep index).playback.Holds ((t.rest index).keep index).inFlight
      (some index :: places) where
  running := h.running
  notSkipping := h.notSkipping
  requested := h.requested
  accounts := by
    obtain ⟨past, hpast⟩ := h.accounts
    have hshape : ((t.rest index).keep index).playback.shape = t.playback.shape :=
      map_modifyNode (·.isRunnable) fun _ _ => rfl
    refine ⟨past, ?_⟩
    rw [List.map_congr_left fun b _ => finishPoint?_congr hshape b]
    have hpoints : ((t.rest index).keep index).playback.resumePoints =
        t.playback.resumePoints ++ [index] := rfl
    simp only [hpoints, List.map_append, List.map_cons, List.map_nil, List.append_assoc,
      List.cons_append, List.nil_append]
    -- The new resume point stands where the branch stood in the account.
    refine List.perm_middle.trans (List.Perm.cons _ ?_)
    rw [← List.append_assoc]
    exact hpast

variable [Behaviour β]

/-- The run has gone on calmly, and all that happened was that behaviours ran. -/
structure RunsTo (t u : Turn β) : Prop where
  calm : t.Calm u
  only : ∃ log : Log β, log.events = [] ∧ log.RunsOnly ∧
    t.world.Grows t.playback.id log u.world

theorem runsTo_of_world_eq {t u : Turn β} (h : t.Calm u) (hw : u.world = t.world) :
    t.RunsTo u := by
  refine ⟨h, {}, rfl, Log.runsOnly_nil [], ?_⟩
  rw [hw]
  exact .refl _ _

theorem RunsTo.trans {t u v : Turn β} (h : t.RunsTo u) (h' : u.RunsTo v) : t.RunsTo v := by
  obtain ⟨hcalm, log, hevents, honly, hgrows⟩ := h
  obtain ⟨hcalm', log', hevents', honly', hgrows'⟩ := h'
  have hid : u.playback.id = t.playback.id := congrArg Identity.id hcalm.identity
  rw [hid] at hgrows'
  refine ⟨hcalm.trans hcalm', log ++ log', ?_, honly.append honly', hgrows.trans hgrows'⟩
  rw [Log.events_append, hevents, hevents', List.append_nil]

theorem runsTo_ran (t : Turn β) (index : Nat) (running : Bool) (b : β) :
    t.RunsTo (t.ran index running b) := by
  have hcalm := t.calm_called (if running then .poll else .run) index b
    (t.runOutcome index running b) (t.runOutcome index running b).running
  refine ⟨hcalm, ⟨[], [t.call (if running then .poll else .run) index b],
    (t.runOutcome index running b).commands⟩, rfl, ⟨[t.runOutcome index running b], ?_, ?_⟩, ?_⟩
  · exact .cons (t.isOf_runOutcome index running b) .nil
  · exact (List.append_nil _).symm
  · refine ⟨?_, t.calls_ran index running b, World.commands_absorb _ _⟩
    exact (hcalm.world.events _).trans (List.append_nil _).symm

/-- What a turn under a pause comes to. -/
inductive PausesTo (t : Turn β) (places : List (Option Nat)) : Turn β → Prop
  | going {u : Turn β} (hu : t.RunsTo u) (h : u.playback.Holds u.inFlight places) :
    PausesTo t places u
  /-- Nothing is under way any more, and there is something to go on with. -/
  | paused {u : Turn β} (hu : t.RunsTo u) (h : u.playback.Holds [] places) (hr : u.ready = [])
    (hp : u.playback.pending = []) (hpoints : u.playback.resumePoints ≠ []) :
    PausesTo t places u.endPause
  /-- Every branch has run past the last node. -/
  | ended {u : Turn β} (hu : t.RunsTo u) (h : u.playback.Holds [] places)
    (hpoints : u.playback.resumePoints = []) : PausesTo t places u.endRun

theorem PausesTo.of_runsTo {t u v : Turn β} {places : List (Option Nat)} (h : t.RunsTo u)
    (h' : u.PausesTo places v) : t.PausesTo places v := by
  cases h' with
  | going hu h' => exact .going (h.trans hu) h'
  | paused hu h' hr hp hpoints => exact .paused (h.trans hu) h' hr hp hpoints
  | ended hu h' hpoints => exact .ended (h.trans hu) h' hpoints

theorem pausesTo_settle {t : Turn β} {places : List (Option Nat)}
    (h : t.playback.Holds t.inFlight places) : t.PausesTo places t.settle := by
  have hrefl := runsTo_of_world_eq (.refl t) rfl
  by_cases hnone : t.ready = [] ∧ t.playback.pending = []
  · -- That was the last branch, and the resume points say which end this is.
    obtain ⟨hr, hp⟩ := hnone
    have hflight : t.inFlight = [] := by rw [inFlight, hr, hp, List.append_nil]
    rw [hflight] at h
    unfold settle
    rw [if_neg (by simp [h.running, hr, hp]), h.requested]
    split_ifs with hpoints
    · exact .paused hrefl h hr hp (by simpa using hpoints)
    · exact .ended hrefl h (by simpa using hpoints)
  · unfold settle
    rw [if_pos]
    · exact .going hrefl h
    · rcases not_and_or.mp hnone with hr | hp
      · simp [hr]
      · simp [hp]

theorem pausesTo_finish {t : Turn β} {places : List (Option Nat)} {index : Nat} {node : Node β}
    (h : t.playback.Holds t.inFlight places) (hn : t.playback.nodes[index]? = some node) :
    t.PausesTo (some index :: places) (t.finish index) := by
  have hkeep := holds_keep h index
  have hruns : t.RunsTo ((t.rest index).keep index) :=
    runsTo_of_world_eq ((t.calm_rest index).trans (calm_keep _ index)) rfl
  rw [finish_of_pauseRequested hn h.requested]
  split_ifs with hnone
  · -- The pause takes effect with this branch.
    rw [Bool.and_eq_true, List.isEmpty_iff, List.isEmpty_iff] at hnone
    obtain ⟨hr, hp⟩ := hnone
    have hflight : ((t.rest index).keep index).inFlight = [] := by
      change t.ready ++ t.playback.pending = []
      rw [hr, hp, List.append_nil]
    rw [hflight] at hkeep
    exact .paused hruns hkeep hr hp (by simp [keep])
  · exact .going hruns hkeep

/-- A call leaves a node where it was. -/
theorem holds_ran {t : Turn β} {places : List (Option Nat)} {b : Branch} {node : Node β}
    {running : Bool} {behaviour : β} (h : t.playback.Holds t.inFlight places)
    (hn : t.playback.nodes[b.index]? = some node) (hr : t.Runs b node running behaviour) :
    (t.ran b.index running behaviour).playback.Holds
      (t.ran b.index running behaviour).inFlight places := by
  -- A call puts one behaviour in the place of another, so the node is still not passed over.
  refine h.congr rfl rfl rfl rfl (map_modifyNode (·.isRunnable) fun n hn' => ?_)
  obtain rfl := Option.some.inj (hn.symm.trans hn')
  cases hr with
  | arrives _ _ hb => simp [Node.isRunnable, hb]
  | continues _ hb => simp [Node.isRunnable, hb]

/-- A branch that runs a node finishes in it. -/
theorem finishPoint?_of_runs {t : Turn β} {b : Branch} {node : Node β} {running : Bool}
    {behaviour : β} (hn : t.playback.nodes[b.index]? = some node)
    (hr : t.Runs b node running behaviour) : t.playback.finishPoint? b = some b.index := by
  cases hr with
  | arrives hb he hsome =>
    have hrunnable : node.isRunnable = true := by simp [Node.isRunnable, he, hsome]
    rw [finishPoint?, hb]
    exact nextRunnable?_of_runnable hn hrunnable
  | continues hb hsome =>
    obtain ⟨hlt, -⟩ := List.getElem?_eq_some_iff.mp hn
    rw [finishPoint?, hb]
    exact if_pos hlt

/-- Taking up a branch keeps the account. -/
theorem pausesTo_advance {t : Turn β} {places : List (Option Nat)} (b : Branch)
    (h : t.playback.Holds t.inFlight places) :
    t.PausesTo (t.playback.finishPoint? b :: places) (t.advance b) := by
  have htaken := taken_advance h.notSkipping b
  generalize t.advance b = u at htaken ⊢
  cases htaken with
  | lost hn =>
    -- There is no node where the branch is, whatever it was to do there.
    have hpoint : t.playback.finishPoint? b = none := by
      unfold finishPoint?
      cases b.step with
      | visit => exact nextRunnable?_of_none hn
      | poll => exact if_neg (Nat.not_lt.mpr (List.getElem?_eq_none_iff.mp hn))
      | resolve => exact if_neg (Nat.not_lt.mpr (List.getElem?_eq_none_iff.mp hn))
    rw [hpoint]
    exact pausesTo_settle h.pass
  | @passed node hb hn hr =>
    -- A node that is passed over hands its place to the next one.
    have hpoint : t.playback.finishPoint? b = t.playback.finishPoint?
        { index := b.index + 1, step := .visit, origin := some b.index } := by
      rw [finishPoint?, hb]
      exact nextRunnable?_of_not_runnable hn hr
    rw [hpoint]
    exact .going (runsTo_of_world_eq (t.calm_push _) rfl) (holds_push h _)
  | @suspended node running behaviour hn hr ho =>
    have hran := holds_ran h hn hr
    have hcalm := calm_suspend (t.ran b.index running behaviour) b.index
      (t.runOutcome b.index running behaviour).wait
    have hlt := (List.getElem?_eq_some_iff.mp (getElem?_ran hn running behaviour)).1
    rw [finishPoint?_of_runs hn hr]
    exact .going ((t.runsTo_ran b.index running behaviour).trans (runsTo_of_world_eq hcalm rfl))
      (holds_suspend hran hlt _)
  | @completed node running behaviour hn hr ho =>
    rw [finishPoint?_of_runs hn hr]
    exact .of_runsTo (t.runsTo_ran b.index running behaviour)
      (pausesTo_finish (holds_ran h hn hr) (getElem?_ran hn running behaviour))
  | @resolved node hn hb =>
    have hlt := (List.getElem?_eq_some_iff.mp hn).1
    have hpoint : t.playback.finishPoint? b = some b.index := by
      unfold finishPoint?
      -- It came back to the node, or it polled one that has lost its behaviour.
      rcases hb with hb | ⟨hb, -⟩ <;> rw [hb] <;> exact if_pos hlt
    rw [hpoint]
    exact pausesTo_finish h hn

/-! ### A whole turn -/

theorem PausesTo.perm {t u : Turn β} {places places' : List (Option Nat)}
    (h : t.PausesTo places u) (hp : places.Perm places') : t.PausesTo places' u := by
  cases h with
  | going hu h => exact .going hu (h.perm (.refl _) hp)
  | paused hu h hr hpending hpoints => exact .paused hu (h.perm (.refl _) hp) hr hpending hpoints
  | ended hu h hpoints => exact .ended hu (h.perm (.refl _) hp) hpoints

/-- Taking up the next branch keeps the account. -/
theorem pausesTo_next {t : Turn β} {places : List (Option Nat)} {b : Branch} {rest : List Branch}
    (h : t.playback.Holds t.inFlight places) (hready : t.ready = b :: rest) :
    t.PausesTo places (({ t with ready := rest } : Turn β).advance b) := by
  rw [inFlight, hready] at h
  -- Without the branch the rest of the account stays, and its place is added again afterwards.
  obtain ⟨others, hothers, hperm⟩ := holds_cons h
  have htaken := pausesTo_advance (t := { t with ready := rest }) b hothers
  have hruns : t.RunsTo { t with ready := rest } :=
    runsTo_of_world_eq ⟨rfl, rfl, rfl, rfl, .refl _⟩ rfl
  exact (PausesTo.of_runsTo hruns htaken).perm hperm

/-- A turn under a pause keeps the account to its end. -/
theorem pausesTo_run {fuel : Nat} {t : Turn β} {places : List (Option Nat)}
    {r : Playback β × World β} (h : t.playback.Holds t.inFlight places)
    (hr : t.run fuel = some r) :
    ∃ u, t.PausesTo places u ∧ r = u.view ∧ (u.ready = [] ∨ u.playback.phase ≠ .running) := by
  refine run_induction (I := t.PausesTo places) (fun u b rest hu hrun hready => ?_)
    (.going (runsTo_of_world_eq (.refl t) rfl) h) hr
  cases hu with
  | going hu hholds => exact .of_runsTo hu (pausesTo_next hholds hready)
  -- A turn that has come to its end takes up nothing.
  | paused => simp [endPause] at hrun
  | ended => simp [endRun] at hrun

/-! ### Every turn under a pause comes to its end -/

end Turn

/-- How often a branch can still be taken up under a pause, in a graph of a given length. -/
def Branch.cost (length : Nat) (b : Branch) : Nat :=
  match b.step with
  | .visit => length - b.index + 1
  | .poll | .resolve => 1

theorem Branch.cost_pos (length : Nat) (b : Branch) : 0 < b.cost length := by
  unfold cost
  cases b.step <;> exact Nat.succ_pos _

/-- How often branches can still be taken up under a pause, all together. -/
def Branch.costs (length : Nat) : List Branch → Nat
  | [] => 0
  | b :: rest => b.cost length + costs length rest

theorem Branch.costs_append (length : Nat) (bs cs : List Branch) :
    costs length (bs ++ cs) = costs length bs + costs length cs := by
  induction bs with
  | nil => exact (Nat.zero_add _).symm
  | cons b bs ih =>
    rw [List.cons_append, costs, costs, ih]
    omega

namespace Turn

/-- How often branches can still be taken up in this turn under a pause. -/
def work (t : Turn β) : Nat := Branch.costs t.playback.nodes.length t.ready

/-- The turn has as many branches and nodes. -/
structure SameWork (t u : Turn β) : Prop where
  ready : u.ready = t.ready
  length_eq : u.playback.nodes.length = t.playback.nodes.length

theorem SameWork.work_eq {t u : Turn β} (h : t.SameWork u) : u.work = t.work := by
  rw [work, work, h.ready, h.length_eq]

theorem SameWork.trans {t u v : Turn β} (h : t.SameWork u) (h' : u.SameWork v) : t.SameWork v :=
  ⟨h'.ready.trans h.ready, h'.length_eq.trans h.length_eq⟩

theorem sameWork_settle (t : Turn β) : t.SameWork t.settle := by
  unfold settle
  split_ifs <;> exact ⟨rfl, rfl⟩

variable [Behaviour β]

theorem sameWork_finish {t : Turn β} {index : Nat} {node : Node β}
    (hn : t.playback.nodes[index]? = some node) (hp : t.playback.pauseRequested = true) :
    t.SameWork (t.finish index) := by
  rw [finish_of_pauseRequested hn hp]
  split_ifs <;> exact ⟨rfl, List.length_modify ..⟩

theorem sameWork_ran (t : Turn β) (index : Nat) (running : Bool) (b : β) :
    t.SameWork (t.ran index running b) := ⟨rfl, List.length_modify ..⟩

/-- Under a pause a branch leaves less to be done than it took. -/
theorem work_advance_lt {t : Turn β} (hs : t.playback.skipping = false)
    (hp : t.playback.pauseRequested = true) (b : Branch) :
    (t.advance b).work < t.work + b.cost t.playback.nodes.length := by
  have hpos := b.cost_pos t.playback.nodes.length
  -- It is enough that the turn has no more work than before, since the branch itself is gone.
  have hsame : ∀ u : Turn β, t.SameWork u → u.work < t.work + b.cost t.playback.nodes.length :=
    fun u hu => by rw [hu.work_eq]; omega
  have htaken := taken_advance hs b
  generalize t.advance b = u at htaken ⊢
  cases htaken with
  | lost => exact hsame _ t.sameWork_settle
  | @passed node hb hn hr =>
    -- The node after this one is nearer to the end.
    have hlt := (List.getElem?_eq_some_iff.mp hn).1
    simp only [work, push, Branch.costs_append, Branch.costs, Branch.cost, hb]
    omega
  | suspended hn hr ho =>
    exact hsame _ ((t.sameWork_ran _ _ _).trans ⟨rfl, rfl⟩)
  | completed hn hr ho =>
    exact hsame _ ((t.sameWork_ran _ _ _).trans (sameWork_finish (getElem?_ran hn _ _) hp))
  | resolved hn hb => exact hsame _ (sameWork_finish hn hp)

/-- With enough fuel a turn under a pause comes to its end. -/
theorem exists_run_of_holds {fuel : Nat} {t : Turn β} {places : List (Option Nat)}
    (h : t.playback.Holds t.inFlight places) (hfuel : t.work ≤ fuel) :
    ∃ r, t.run fuel = some r := by
  induction fuel generalizing t places with
  | zero =>
    rcases t.over_or_ready with hover | ⟨-, b, rest, hready⟩
    · exact ⟨_, run_of_over hover 0⟩
    · -- Without fuel there would have to be no work left, but the branch is some.
      have hpos := b.cost_pos t.playback.nodes.length
      simp only [work, hready, Branch.costs] at hfuel
      omega
  | succ fuel ih =>
    rcases t.over_or_ready with hover | ⟨hrun, b, rest, hready⟩
    · exact ⟨_, run_of_over hover _⟩
    · have hnext := pausesTo_next h hready
      -- The branch costs more than what it leaves to be done.
      have hlt : (({ t with ready := rest } : Turn β).advance b).work <
          ({ t with ready := rest } : Turn β).work + b.cost t.playback.nodes.length :=
        work_advance_lt (t := { t with ready := rest }) h.notSkipping h.requested b
      have hwork : t.work = ({ t with ready := rest } : Turn β).work +
          b.cost t.playback.nodes.length := by
        simp only [work, hready, Branch.costs]
        omega
      rw [run_of_ready_eq_cons hrun hready]
      generalize ({ t with ready := rest } : Turn β).advance b = u at hnext hlt ⊢
      cases hnext with
      | going hu hholds => exact ih hholds (by omega)
      | paused => exact ⟨_, run_of_not_running (by simp [endPause]) fuel⟩
      | ended => exact ⟨_, run_of_not_running (by simp [endRun]) fuel⟩

end Turn

end Cutscene
