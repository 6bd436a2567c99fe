import Cutscene.Proofs.Playback.Rounds

/-!
# Where a pause parts two runs

Two playbacks at the same point, of which the second one has been asked to pause, go on in step
until a node is done: there the first one takes the ending, and the second one pauses with the node
as its resume point (`Turn.RestsAt`). From then on the first one has nothing else to do than what
resuming the second one does: `Turn.RestsAt.resume` and `Turn.RestsAt.onward` say that each of them
returns if the other one does, and that they call the same behaviours.
-/

namespace Cutscene

variable {β : Type} [Behaviour β]

namespace Turn

open Playback

variable {S : β → Prop} {w w' : World β} {calls : List (Call β)} {t u : Turn β}

/-! ### A turn under a pause beside one that is not -/

omit [Behaviour β] in
/-- A turn is about to take an ending, and a paused playback will do so once it is resumed. -/
structure RestsAt (t : Turn β) (q : Playback β) (index : Nat) : Prop where
  level : t.playback.Level false (q.revived q.start q.parameters)
  running : t.playback.phase = .running
  ready : t.ready = []
  pending : t.playback.pending = []
  paused : q.phase = .paused
  points : q.resumePoints = [index]

/-- How two turns in step come out if a pause has been asked for on the second side. -/
inductive ComesOut (S : β → Prop) (w w' : World β) (calls : List (Call β)) (t : Turn β)
    (r' : Playback β × World β) : Prop
  /-- No node is done: they end together. -/
  | together {fuel : Nat} {r : Playback β × World β} (hr : t.run fuel = some r)
    (h : EndsInStep true S w w' calls r r')
  /-- A node is done. The first one, some steps on, has yet to take its ending. -/
  | parts {t' : Turn β} {more : List (Call β)} {index steps : Nat} (h : t'.RestsAt r'.1 index)
    (hb : t'.playback.Behaves S)
    (hcalls : t'.world.calls = w.calls ++ (calls ++ more))
    (hcalls' : r'.2.calls = w'.calls ++ (calls ++ more))
    (hsteps : ∀ fuel, t.run (steps + fuel) = (t'.finish index).run fuel)

omit [Behaviour β] in
/-- A node is put to rest once. -/
theorem rest_rest (t : Turn β) (index : Nat) : (t.rest index).rest index = t.rest index := by
  simp only [rest, modifyNode, List.modify_modify_eq]
  rfl

/-- Whether a node is marked as running does not matter once it is done. -/
theorem finish_rest {t : Turn β} {index : Nat} {node : Node β}
    (hn : t.playback.nodes[index]? = some node) (hp : t.playback.pauseRequested = false) :
    (t.rest index).finish index = t.finish index := by
  have hn' : (t.rest index).playback.nodes[index]? = some { node with running := false } := by
    simp [rest, modifyNode, hn]
  rw [finish_of_following hn hp, finish_of_following hn' hp, rest_rest]
  rfl

omit [Behaviour β] in
/-- What does not run has no node that is marked as running. -/
theorem nodes_clearBranches {q : Playback β} (h : q.Sound) (hq : q.phase ≠ .running) :
    q.clearBranches.nodes = q.nodes := by
  obtain ⟨-, -, hrests⟩ := h.rests hq
  refine (List.map_congr_left fun n hn => ?_).trans (List.map_id' q.nodes)
  rw [← hrests n hn]

omit [Behaviour β] in
/-- The turn that takes the ending and the playback that pauses before it. -/
theorem InStep.restsAt (h : InStep true S w w' calls t u) (hrun : t.playback.phase = .running)
    (hready : t.ready = []) (hpending : t.playback.pending = []) (index : Nat)
    (hsound : ((u.rest index).keep index).endPause.playback.Sound) :
    (t.rest index).RestsAt ((u.rest index).keep index).endPause.playback index := by
  have hrest := (h.rest index).level
  obtain ⟨-, hpoints⟩ := h.level.requested hrun
  have hnodes := nodes_clearBranches hsound (by simp [endPause])
  refine ⟨⟨hrest.identity, hnodes.trans hrest.nodes, hrest.parameters, hrun.symm,
    hrest.unpaused, h.level.notSkipping, rfl, ?_, h.level.unasked, fun _ => ⟨rfl, by simp⟩⟩,
    hrun, hready, hpending, rfl, ?_⟩
  · exact (congrArg (List.map Branch.untimed) hpending).symm
  · change u.playback.resumePoints ++ [index] = [index]
    rw [hpoints rfl, List.nil_append]

/-- Two turns in step, one of them under a pause. -/
theorem comesOut_run (hS : Secluded S) {fuel : Nat} {r' : Playback β × World β}
    (h : InStep true S w w' calls t u) (hs : t.Solitary) (hr : u.run fuel = some r')
    (hsound : r'.1.Sound) : ComesOut S w w' calls t r' := by
  induction fuel generalizing t u calls with
  | zero =>
    rcases t.over_or_ready with hover | ⟨hrun, b, rest, hready⟩
    · rw [run_of_over (h.over hover)] at hr
      obtain rfl := Option.some.inj hr
      -- The run without a pause is over, and so is the paused one: they end together.
      exact .together (run_of_over hover 0) h.ends
    · obtain ⟨b', rest', hready', -, -⟩ := h.next hready
      rw [run_zero_of_ready_eq_cons (h.level.phase.trans hrun) hready'] at hr
      simp at hr
  | succ fuel ih =>
    rcases t.over_or_ready with hover | ⟨hrun, b, rest, hready⟩
    · rw [run_of_over (h.over hover)] at hr
      obtain rfl := Option.some.inj hr
      exact .together (run_of_over hover 0) h.ends
    · obtain ⟨b', rest', hready', hb, hnext⟩ := h.next hready
      -- Only one branch is under way, so none is left beside the one that is taken up.
      obtain ⟨hnil, -⟩ := hs.next hready
      have hplain : ({ t with ready := rest } : Turn β).Plain S :=
        ⟨.refl h.level.notSkipping h.level.unpaused h.level.unasked, h.behaves⟩
      obtain ⟨hsolitary, -⟩ := askedOnce_advance hS hplain hrun hnil b
      have hsteps := stepsOn_advance hS hnext hrun hb
      have hturn := run_of_ready_eq_cons hrun hready
      rw [run_of_ready_eq_cons (h.level.phase.trans hrun) hready'] at hr
      generalize ({ t with ready := rest } : Turn β).advance b = t' at hsolitary hsteps hturn
      generalize ({ u with ready := rest' } : Turn β).advance b' = u' at hsteps hr
      cases hsteps with
      -- Both turns still go on side by side.
      | @together more _ _ h' =>
        cases ih h' hsolitary hr with
        | @together fuel' r hr' hends =>
          obtain ⟨more', hcalls, hcalls'⟩ := hends.calls_eq
          rw [List.append_assoc] at hcalls hcalls'
          exact .together ((hturn _).trans hr') ⟨hends.level, hends.behaves, _, hcalls, hcalls'⟩
        | @parts t'' more' index steps hrests hbehaves hcalls hcalls' hrest =>
          rw [List.append_assoc] at hcalls hcalls'
          have hsteps : ∀ fuel, t.run (steps + 1 + fuel) = (t''.finish index).run fuel := by
            intro fuel
            rw [Nat.add_right_comm, hturn, hrest]
          exact .parts hrests hbehaves hcalls hcalls' hsteps
      -- The node is done. One turn goes on, the other one records it and comes to its pause.
      | @done more t' u' h' hrun' hr' hp' index node hn =>
        obtain ⟨hr₀, hp₀⟩ := List.append_eq_nil_iff.mp hnil
        have hready₁ : t'.ready = [] := hr'.trans hr₀
        have hpending₁ : t'.playback.pending = [] := hp'.trans hp₀
        have hn' : u'.playback.nodes[index]? = some node := h'.level.nodes ▸ hn
        obtain ⟨hasked, -⟩ := h'.level.requested hrun'
        -- Nothing is ready or pending, so the pause takes effect at once.
        rw [finish_of_pauseRequested hn' hasked, if_pos (by
          simp [h'.ready_eq_nil_iff.mpr hready₁, h'.pending_eq_nil_iff.mpr hpending₁]),
          run_of_not_running (by simp [endPause])] at hr
        obtain rfl := Option.some.inj hr
        have hsteps : ∀ fuel, t.run (1 + fuel) = ((t'.rest index).finish index).run fuel := by
          intro fuel
          rw [Nat.add_comm, hturn, finish_rest hn (h'.level.unasked hrun')]
        exact .parts (h'.restsAt hrun' hready₁ hpending₁ index hsound) (h'.rest index).behaves
          h'.calls_eq ((calls_endPause _).trans h'.calls_eq') hsteps

/-! ### Going on after the pause -/

section

variable {q : Playback β} {index : Nat} {parameters : String}

omit [Behaviour β] in
/-- The turn that resuming begins with is in step with the one that is about to take the ending. -/
theorem RestsAt.inStep (h : t.RestsAt q index) (hb : t.playback.Behaves S)
    (hp : q.restored parameters = (q.parameters, [])) (w₁ : World β) :
    InStep false S t.world w₁ []
      { t with ready := (q.resumeTurn w₁ q.start [index] parameters false).ready }
      (q.resumeTurn w₁ q.start [index] parameters false) where
  level := by
    unfold resumeTurn
    rw [hp]
    exact h.level
  behaves := hb
  ready := rfl
  calls_eq := (List.append_nil _).symm
  calls_eq' := by
    rw [List.append_nil]
    refine (World.calls_noticeAll _ _).trans ((World.calls_emit _ _ _).trans ?_)
    exact World.calls_noticeAll _ _

omit [Behaviour β] in
theorem RestsAt.length_eq (h : t.RestsAt q index) :
    q.nodes.length = t.playback.nodes.length := by
  have hlength := congrArg List.length h.level.nodes
  rw [← hlength]
  exact (List.length_map _).symm

/-- A paused playback is resumed with its one resume point: in a turn, or not at all if that is no
node. -/
theorem RestsAt.resume_eq (h : t.RestsAt q index) (w₁ : World β) (fuel : Nat) :
    q.resume fuel w₁ q.start [index] parameters false =
      if (q.resumeTurn w₁ q.start [index] parameters false).ready = [] then
        some (q.resumeTurn w₁ q.start [index] parameters false).endRun.view
      else (q.resumeTurn w₁ q.start [index] parameters false).run fuel := by
  have hstays : q.interrupted w₁ = (q, w₁) := if_neg (by simp [h.paused])
  rw [resume_of_ne_nil fuel q w₁ q.start (List.cons_ne_nil index [])]
  dsimp only
  rw [hstays]
  have hready : (q.resumeTurn w₁ q.start [index] parameters false).ready = [] ↔
      ((q.resumeTurn w₁ q.start [index] parameters false).playback.validPoints [index]).1 = [] :=
    List.map_eq_nil_iff
  simp only [hready]

omit [Behaviour β] in
/-- A resume point that is a node is there to have its ending taken. -/
theorem RestsAt.ready_eq (h : t.RestsAt q index) (w₁ : World β) :
    (q.resumeTurn w₁ q.start [index] parameters false).ready =
      if index < t.playback.nodes.length then [{ index := index, step := .resolve }] else [] := by
  have hlength : (q.revived q.start (q.restored parameters).1).nodes.length =
      t.playback.nodes.length := (List.length_map _).trans h.length_eq
  simp only [resumeTurn, validPoints, hlength, List.filter_cons, List.filter_nil, decide_eq_true_eq,
    Bool.false_eq_true, if_false]
  split_ifs <;> rfl

/-- The ending is taken in a turn of its own, or there is none and the run is over. -/
theorem RestsAt.run_finish (h : t.RestsAt q index) (fuel : Nat) :
    (t.finish index).run fuel =
      if index < t.playback.nodes.length then
        ({ t with ready := [{ index := index, step := .resolve }] } : Turn β).run (fuel + 1)
      else some t.endRun.view := by
  split_ifs with hi
  · -- To resolve the node is what a finished node does anyway.
    have hbare : ({ t with ready := [] } : Turn β) = t := by rw [← h.ready]
    rw [run_of_ready_eq_cons (t := { t with ready := [{ index := index, step := .resolve }] })
      h.running rfl]
    change _ = (({ t with ready := [] } : Turn β).finish index).run fuel
    rw [hbare]
  · -- The node is not there, and a run without branches ends.
    have hover : t.settle = t.endRun := by
      unfold settle
      rw [if_neg (by simp [h.running, h.ready, h.pending]),
        if_neg (by simp [h.level.unasked h.running])]
    rw [finish_of_none (List.getElem?_eq_none_iff.mpr (Nat.le_of_not_lt hi)), hover]
    exact run_of_not_running (by simp [endRun]) fuel

/-- Once the paused playback is resumed it does what the other one has yet to do. -/
theorem RestsAt.resume (hS : Secluded S) (h : t.RestsAt q index) (hb : t.playback.Behaves S)
    (hp : q.restored parameters = (q.parameters, [])) {fuel : Nat} {r : Playback β × World β}
    (hr : (t.finish index).run fuel = some r) (w₁ : World β) :
    ∃ fuel' r', q.resume fuel' w₁ q.start [index] parameters false = some r' ∧
      EndsInStep false S t.world w₁ [] r r' := by
  have hstep := h.inStep hb hp w₁
  have hresume : q.resume (fuel + 1) w₁ q.start [index] parameters false = _ := h.resume_eq w₁ _
  rw [h.run_finish] at hr
  rw [h.ready_eq] at hstep hresume
  by_cases hi : index < t.playback.nodes.length
  · rw [if_pos hi] at hr hstep hresume
    rw [if_neg (List.cons_ne_nil _ _)] at hresume
    obtain ⟨r', hr', hends⟩ := hstep.run hS hr
    exact ⟨fuel + 1, r', hresume.trans hr', hends⟩
  · -- There is no node to go on with, so to resume is to end the run.
    rw [if_neg hi] at hr hstep hresume
    rw [if_pos rfl] at hresume
    obtain rfl := Option.some.inj hr
    exact ⟨_, _, hresume, hstep.endRun.ends⟩

/-- The other one returns if resuming does. -/
theorem RestsAt.onward (hS : Secluded S) (h : t.RestsAt q index) (hb : t.playback.Behaves S)
    (hp : q.restored parameters = (q.parameters, [])) {w₁ : World β} {fuel' : Nat}
    {r' : Playback β × World β}
    (hr : q.resume fuel' w₁ q.start [index] parameters false = some r') :
    ∃ fuel r, (t.finish index).run fuel = some r := by
  have hstep := h.inStep hb hp w₁
  have hfinish := h.run_finish fuel'
  rw [h.resume_eq, h.ready_eq] at hr
  rw [h.ready_eq] at hstep
  by_cases hi : index < t.playback.nodes.length
  · rw [if_pos hi] at hstep hfinish
    rw [if_pos hi, if_neg (List.cons_ne_nil _ _)] at hr
    obtain ⟨r, hr, -⟩ := hstep.symm.run hS hr
    exact ⟨fuel', r, hfinish.trans (run_mono hr (Nat.le_succ fuel'))⟩
  · rw [if_neg hi] at hfinish
    exact ⟨_, _, hfinish⟩

end

end Turn

end Cutscene
