import Cutscene.Proofs.Playback.Run
import Cutscene.Proofs.Playback.Sound

/-!
# Where branches stop

Whether a node is in the middle of its execution is kept with the node, while it is branches that
wait in it. `Turn.stop?` says of a branch that is taken up whether it waits in its node afterwards,
and `Turn.Worked` lists what it does to the row of branches and to the marks of the nodes
(`worked_advance`). A turn is followed branch by branch with the stops on the way (`Turn.Works`);
the row is first come first served, so every branch that is ready is taken up in its turn
(`exists_works_of_mem_ready`), and one that waits goes on waiting (`Works.count_le`).
-/

namespace Cutscene.Turn

open Playback

variable {β : Type}

/-! ### Turns that go on -/

/-- A turn has gone on without a call to run: the branches of before are still there, others only
arrive at nodes, and no node has been marked as running or as not running. -/
structure Onward (t u : Turn β) : Prop where
  phase : u.playback.phase = t.playback.phase
  skipping : u.playback.skipping = t.playback.skipping
  ready : ∃ more, u.ready = t.ready ++ more ∧ ∀ b ∈ more, b.step = .visit
  pending : ∃ more, u.playback.pending = t.playback.pending ++ more ∧ ∀ b ∈ more, b.step = .visit
  isRunningAt : ∀ index, u.playback.isRunningAt index = t.playback.isRunningAt index

theorem Onward.refl (t : Turn β) : t.Onward t where
  phase := rfl
  skipping := rfl
  ready := ⟨[], (List.append_nil _).symm, by simp⟩
  pending := ⟨[], (List.append_nil _).symm, by simp⟩
  isRunningAt _ := rfl

theorem Onward.trans {t u v : Turn β} (h : t.Onward u) (h' : u.Onward v) : t.Onward v := by
  have happend : ∀ {bs cs ds : List Branch},
      (∃ more, cs = bs ++ more ∧ ∀ b ∈ more, b.step = .visit) →
      (∃ more, ds = cs ++ more ∧ ∀ b ∈ more, b.step = .visit) →
      ∃ more, ds = bs ++ more ∧ ∀ b ∈ more, b.step = .visit := by
    rintro bs cs ds ⟨more, rfl, hmore⟩ ⟨more', rfl, hmore'⟩
    refine ⟨more ++ more', List.append_assoc .., fun b hb => ?_⟩
    exact (List.mem_append.mp hb).elim (hmore b) (hmore' b)
  exact ⟨h'.phase.trans h.phase, h'.skipping.trans h.skipping, happend h.ready h'.ready,
    happend h.pending h'.pending, fun index => (h'.isRunningAt index).trans (h.isRunningAt index)⟩

theorem SameBranches.onward {t u : Turn β} (h : t.SameBranches u) : t.Onward u where
  phase := h.calm.phase
  skipping := h.calm.skipping
  ready := ⟨[], by rw [h.ready, List.append_nil], by simp⟩
  pending := ⟨[], by rw [h.pending, List.append_nil], by simp⟩
  isRunningAt := h.isRunningAt

theorem onward_push (t : Turn β) {b : Branch} (hb : b.step = .visit) : t.Onward (t.push b) where
  phase := rfl
  skipping := rfl
  ready := ⟨[b], rfl, by simp [hb]⟩
  pending := ⟨[], (List.append_nil _).symm, by simp⟩
  isRunningAt _ := rfl

theorem onward_defer (t : Turn β) {b : Branch} (hb : b.step = .visit) : t.Onward (t.defer b) where
  phase := rfl
  skipping := rfl
  ready := ⟨[], (List.append_nil _).symm, by simp⟩
  pending := ⟨[b], rfl, by simp [hb]⟩
  isRunningAt _ := rfl

theorem onward_followAll (t : Turn β) (index : Nat) (endings : List Ending) :
    t.Onward (t.followAll index endings).1 := by
  induction endings generalizing t with
  | nil => exact .refl t
  | cons ending rest ih =>
    have hf := (t.sameBranches_follow index ending).onward
    rw [followAll]
    rcases h : t.follow index ending with ⟨u, _ | b⟩ <;> rw [h] at hf <;> dsimp only
    · exact hf.trans (ih u)
    · have hvisit : b.step = .visit := (follow_branch h).1
      split_ifs
      · exact (hf.trans (u.onward_push hvisit)).trans (ih _)
      · exact (hf.trans (u.onward_defer hvisit)).trans (ih _)

/-- Only when no other branch is under way, a turn settles. -/
theorem onward_settle (t : Turn β) :
    t.Onward t.settle ∨ t.settle.playback.phase ≠ .running ∧ t.inFlight = [] := by
  unfold settle
  split_ifs with hgo hpause
  · exact Or.inl (.refl t)
  all_goals
    have hnone : t.inFlight = [] := by
      simp only [Bool.or_eq_true, not_or, Bool.not_eq_true', Bool.not_eq_false,
        List.isEmpty_iff] at hgo
      rw [inFlight, hgo.1.2, hgo.2]
      rfl
    exact Or.inr ⟨by simp [endPause, endRun], hnone⟩

/-- The branch that goes on with a node that wants to be called again: after some seconds, or at the
next tick. -/
def nextPoll (t : Turn β) (index : Nat) (wait : Float32) : Branch where
  index := index
  step := .poll
  origin := some index
  wake := if 0 < wait then t.playback.after wait t.world
    else .nextTick (!t.playback.inRealtime t.world)

theorem suspend_eq (t : Turn β) (index : Nat) (wait : Float32) :
    t.suspend index wait = t.defer (t.nextPoll index wait) := by
  rfl

/-! ### A node that is done -/

variable [Behaviour β]

theorem onward_leave (t : Turn β) (index : Nat) (node : Node β) :
    t.Onward (t.leave index node) ∨
      (t.leave index node).playback.phase ≠ .running ∧ t.inFlight = [] := by
  have honward := (t.sameBranches_endings index node).onward.trans
    (onward_followAll _ index (t.endings index node).2)
  unfold leave
  rcases hf : (t.endings index node).1.followAll index (t.endings index node).2 with ⟨u, _ | _⟩ <;>
    rw [hf] at honward
  · rcases u.onward_settle with hsettle | ⟨hstop, hnone⟩
    · exact Or.inl (honward.trans hsettle)
    · -- What is under way at the end includes what was under way at first.
      obtain ⟨more, hready, -⟩ := honward.ready
      obtain ⟨more', hpending, -⟩ := honward.pending
      rw [inFlight, hready, hpending] at hnone
      simp only [List.append_eq_nil_iff] at hnone
      refine Or.inr ⟨hstop, ?_⟩
      rw [inFlight, hnone.1.1, hnone.2.1]
      rfl
  · exact Or.inl honward

/-- A node that is done is no longer running; apart from that the turn goes on. -/
theorem onward_finish {t : Turn β} {index : Nat} {node : Node β}
    (hn : t.playback.nodes[index]? = some node) :
    (t.rest index).Onward (t.finish index) ∨
      (t.finish index).playback.phase ≠ .running ∧ t.inFlight = [] := by
  cases hp : t.playback.pauseRequested with
  | false =>
    rw [finish_of_following hn hp]
    exact (t.rest index).onward_leave index node
  | true =>
    rw [finish_of_pauseRequested hn hp]
    split_ifs with hnone
    · -- Nothing else is under way, so the pause takes effect.
      simp only [Bool.and_eq_true, List.isEmpty_iff] at hnone
      refine Or.inr ⟨by simp [endPause], ?_⟩
      rw [inFlight, hnone.1, hnone.2]
      rfl
    · -- The node is kept for the pause, and the others go on.
      have hkeep : (t.rest index).Onward ((t.rest index).keep index) :=
        ⟨rfl, rfl, (Onward.refl _).ready, (Onward.refl _).pending, fun _ => rfl⟩
      exact Or.inl hkeep

omit [Behaviour β] in
theorem isRunningAt_rest (t : Turn β) (index i : Nat) :
    (t.rest index).playback.isRunningAt i =
      if i = index then false else t.playback.isRunningAt i := by
  rw [rest, isRunningAt_modifyNode]
  split_ifs with hi
  · cases t.playback.nodes[index]? <;> rfl
  · rfl

omit [Behaviour β] in
theorem Onward.rest {t u : Turn β} (h : t.Onward u) (index : Nat) :
    (t.rest index).Onward (u.rest index) := by
  refine ⟨h.phase, h.skipping, h.ready, h.pending, fun i => ?_⟩
  rw [isRunningAt_rest, isRunningAt_rest, h.isRunningAt]

omit [Behaviour β] in
/-- A call changes one node, and once that is at rest no mark is another than before. -/
theorem onward_rest_called (t : Turn β) (form : Call.Form) (index : Nat) (b : β) (o : Outcome β)
    (running : Bool) :
    (t.rest index).Onward ((t.called form index b o running).rest index) := by
  refine ⟨rfl, rfl, (Onward.refl _).ready, (Onward.refl _).pending, fun i => ?_⟩
  rw [isRunningAt_rest, isRunningAt_rest]
  split_ifs with hi
  · rfl
  · rw [called, isRunningAt_modifyNode, if_neg hi]

/-! ### Taking up a branch -/

/-- The node at which a branch stops as it is taken up, and whether it waits there afterwards. At a
node that it passes over it does not stop. -/
def stop? (t : Turn β) (b : Branch) : Option (Nat × Bool) :=
  match t.playback.nodes[b.index]? with
  | none => none
  | some node =>
    if b.step = .visit ∧ node.isRunnable = false then none
    else
      let begun := (t.advance b).playback.pending.drop t.playback.pending.length
      some (b.index, begun.any (·.step = .poll))

/-- What taking up a branch does to the row of branches and to the marks of the nodes. -/
inductive Worked (t : Turn β) (b : Branch) : Option (Nat × Bool) → Turn β → Prop
  /-- The playback stops. Unless it skips, no other branch was under way. -/
  | stops {stop : Option (Nat × Bool)} {u : Turn β} (hstop : u.playback.phase ≠ .running)
    (hnone : t.playback.skipping = false → t.inFlight = []) : Worked t b stop u
  /-- There is no such node, or it is passed over. -/
  | passes {u : Turn β} (h : t.Onward u) : Worked t b none u
  /-- The node is done. -/
  | leaves {u : Turn β} (h : (t.rest b.index).Onward u) : Worked t b (some (b.index, false)) u
  /-- The node wants to be called again. -/
  | stays {node : Node β} {running : Bool} {behaviour : β}
    (hn : t.playback.nodes[b.index]? = some node)
    (ho : (t.runOutcome b.index running behaviour).running = true) :
    Worked t b (some (b.index, true)) ((t.ran b.index running behaviour).suspend b.index
      (t.runOutcome b.index running behaviour).wait)

theorem stop?_of_none {t : Turn β} {b : Branch} (hn : t.playback.nodes[b.index]? = none) :
    t.stop? b = none := by
  unfold stop?
  rw [hn]

theorem stop?_of_passed {t : Turn β} {b : Branch} {node : Node β}
    (hn : t.playback.nodes[b.index]? = some node) (hb : b.step = .visit)
    (hr : node.isRunnable = false) : t.stop? b = none := by
  unfold stop?
  rw [hn]
  exact if_pos ⟨hb, hr⟩

/-- A branch waits at its stop if one of those that have begun to wait goes on with a node. -/
theorem stop?_of_pending {t : Turn β} {b : Branch} {node : Node β}
    (hn : t.playback.nodes[b.index]? = some node)
    (hr : b.step = .visit → node.isRunnable = true) {more : List Branch}
    (hp : (t.advance b).playback.pending = t.playback.pending ++ more) :
    t.stop? b = some (b.index, more.any (·.step = .poll)) := by
  unfold stop?
  rw [hn]
  dsimp only
  rw [if_neg fun h => by simp [hr h.1] at h, hp, List.drop_left]

theorem Worked.of_finish {t u : Turn β} {b : Branch} {node node' : Node β}
    (hn : t.playback.nodes[b.index]? = some node)
    (hr : b.step = .visit → node.isRunnable = true)
    (hu : (t.rest b.index).Onward (u.rest b.index)) (hf : u.inFlight = t.inFlight)
    (hn' : u.playback.nodes[b.index]? = some node') (ha : t.advance b = u.finish b.index) :
    t.Worked b (t.stop? b) (t.advance b) := by
  rcases onward_finish hn' with honward | ⟨hstop, hnone⟩
  · -- Branches that leave the node arrive elsewhere, so none polls.
    rw [← ha] at honward
    have hleaves := hu.trans honward
    obtain ⟨more, hmore, hvisits⟩ := hleaves.pending
    have hany : more.any (·.step = .poll) = false := by
      rw [List.any_eq_false]
      intro c hc
      simp [hvisits c hc]
    rw [stop?_of_pending hn hr hmore, hany]
    exact .leaves hleaves
  · rw [← ha] at hstop
    exact .stops hstop fun _ => hf ▸ hnone

theorem worked_of_taken {t u : Turn β} {b : Branch} (h : t.Taken b u) (ha : t.advance b = u) :
    t.Worked b (t.stop? b) (t.advance b) := by
  cases h with
  | lost hn =>
    rw [stop?_of_none hn, ha]
    -- With the lost branch the run goes on or is over.
    rcases t.onward_settle with honward | ⟨hstop, hnone⟩
    · exact .passes honward
    · exact .stops hstop fun _ => hnone
  | passed hb hn hr =>
    rw [stop?_of_passed hn hb hr, ha]
    exact .passes (t.onward_push rfl)
  | @suspended node running behaviour hn hr ho =>
    -- What has been run is a node that can run.
    have hrunnable : b.step = .visit → node.isRunnable = true := by
      intro hb
      cases hr with
      | arrives _ he h => simp [Node.isRunnable, he, h]
      | continues hb' _ => simp [hb] at hb'
    have hpending : (t.advance b).playback.pending = t.playback.pending ++
        [(t.ran b.index running behaviour).nextPoll b.index
          (t.runOutcome b.index running behaviour).wait] := by
      rw [ha]
      rfl
    rw [stop?_of_pending hn hrunnable hpending, ha]
    exact .stays hn ho
  | @completed node running behaviour hn hr ho =>
    have hrunnable : b.step = .visit → node.isRunnable = true := by
      intro hb
      cases hr with
      | arrives _ he h => simp [Node.isRunnable, he, h]
      | continues hb' _ => simp [hb] at hb'
    exact .of_finish hn hrunnable (t.onward_rest_called ..) rfl
      (getElem?_ran hn running behaviour) ha
  | resolved hn hb =>
    -- A node that is only resolved is not arrived at.
    have hrunnable : b.step ≠ .visit := by
      rcases hb with hb | ⟨hb, -⟩ <;> simp [hb]
    exact .of_finish hn (fun h => absurd h hrunnable) (.refl _) rfl hn ha

/-- While skipping, a branch that arrives leaves its node at once. -/
theorem worked_of_skipping {t : Turn β} {b : Branch} (hs : t.playback.skipping = true)
    (hb : b.step = .visit) : t.Worked b (t.stop? b) (t.advance b) := by
  have ha : t.advance b = t.visit b.index := by
    unfold advance
    rw [hb]
  have hnever : t.playback.skipping = false → t.inFlight = [] := fun h => by simp [hs] at h
  rcases t.hop_cases with ⟨hhop, hcalm, hnodes, hpending, hready⟩ | ⟨hhop, -, u, -, hkill⟩
  · -- The hop counts and changes nothing else.
    have honward : t.Onward t.hop.1 := by
      refine ⟨hcalm.phase, hcalm.skipping, ⟨[], by simp [hready]⟩, ⟨[], by simp [hpending]⟩, ?_⟩
      intro index
      rw [isRunningAt, hnodes]
      rfl
    cases hn : t.playback.nodes[b.index]? with
    | none =>
      rw [stop?_of_none hn, ha, visit_of_none hhop (by rw [hnodes]; exact hn)]
      rcases t.hop.1.onward_settle with hsettle | ⟨hstop, -⟩
      · exact .passes (honward.trans hsettle)
      · exact .stops hstop hnever
    | some node =>
      have hn' : t.hop.1.playback.nodes[b.index]? = some node := by rw [hnodes]; exact hn
      cases hr : node.isRunnable with
      | false =>
        rw [stop?_of_passed hn hb hr, ha,
          visit_of_not_runnable hhop hn' (isRunnable_eq_false hr)]
        exact .passes (honward.trans (onward_push _ rfl))
      | true =>
        obtain ⟨he, hsome⟩ := Bool.and_eq_true_iff.mp hr
        obtain ⟨b₀, hb₀⟩ := Option.isSome_iff_exists.mp hsome
        rw [visit_of_runnable hhop hn' he hb₀, enter_of_skipping (hcalm.skipping.trans hs)] at ha
        have hcalled := (honward.rest b.index).trans (t.hop.1.onward_rest_called .skip b.index
          (t.hop.1.assigned b₀) (t.hop.1.skipOutcome b.index (t.hop.1.assigned b₀)) false)
        have hsame : t.hop.1.inFlight = t.inFlight := by rw [inFlight, inFlight, hready, hpending]
        have hn'' := List.getElem?_modify_eq (fun n => { n with
          behaviour := some (t.hop.1.skipOutcome b.index (t.hop.1.assigned b₀)).behaviour
          running := false }) b.index t.hop.1.playback.nodes
        rw [hn'] at hn''
        exact .of_finish hn (fun _ => hr) hcalled hsame hn'' ha
  · -- The limit is exceeded.
    have hplayback : t.hop.1.playback = (u.playback.kill u.world).1 := congrArg Prod.fst hkill
    rw [ha, visit_of_killed hhop]
    refine .stops ?_ hnever
    rw [hplayback]
    simp [Playback.kill]

/-- Taking up a branch does nothing else to branches and marks. -/
theorem worked_advance {t : Turn β} {b : Branch}
    (h : t.playback.skipping = true → b.step = .visit) :
    t.Worked b (t.stop? b) (t.advance b) := by
  cases hs : t.playback.skipping with
  | false => exact worked_of_taken (taken_advance hs b) rfl
  | true => exact worked_of_skipping hs (h hs)

/-- As long as another branch is under way the playback runs on, and the other branches keep their
places in the row. -/
theorem Worked.keeps_row {t u : Turn β} {b : Branch} {stop : Option (Nat × Bool)}
    (h : t.Worked b stop u) (hs : t.playback.skipping = false) (hne : t.inFlight ≠ []) :
    u.playback.phase = t.playback.phase ∧ u.playback.skipping = false ∧
      (∃ more, u.ready = t.ready ++ more) ∧
      ∃ more, u.playback.pending = t.playback.pending ++ more := by
  have honward : ∀ {v : Turn β}, v.Onward u →
      u.playback.phase = v.playback.phase ∧ u.playback.skipping = v.playback.skipping ∧
        (∃ more, u.ready = v.ready ++ more) ∧
        ∃ more, u.playback.pending = v.playback.pending ++ more := fun h =>
    ⟨h.phase, h.skipping, h.ready.imp fun _ h => h.1, h.pending.imp fun _ h => h.1⟩
  rw [← hs]
  cases h with
  | stops _ hnone => exact absurd (hnone hs) hne
  | passes h => exact honward h
  | leaves h => exact honward (v := t.rest b.index) h
  | stays hn ho => exact ⟨rfl, rfl, ⟨[], (List.append_nil _).symm⟩, [_], rfl⟩

/-! ### Branch after branch -/

theorem mem_of_count_le {c : Branch} {branches branches' : List Branch} (h : c ∈ branches)
    (hle : branches.count c ≤ branches'.count c) : c ∈ branches' :=
  List.count_pos_iff.mp (Nat.lt_of_lt_of_le (List.count_pos_iff.mpr h) hle)

/-- A turn comes to another one branch by branch. The stops on the way are listed latest first. -/
inductive Works (t : Turn β) : List (Nat × Bool) → Turn β → Prop
  | refl : Works t [] t
  | next {stops : List (Nat × Bool)} {u : Turn β} {b : Branch} {rest : List Branch}
    (h : Works t stops u) (hp : u.playback.phase = .running) (hr : u.ready = b :: rest) :
    Works t ((({ u with ready := rest } : Turn β).stop? b).toList ++ stops)
      (({ u with ready := rest } : Turn β).advance b)

theorem Works.trans {t u v : Turn β} {stops stops' : List (Nat × Bool)} (h : t.Works stops u)
    (h' : u.Works stops' v) : t.Works (stops' ++ stops) v := by
  induction h' with
  | refl => exact h
  | next _ hp hr ih =>
    rw [List.append_assoc]
    exact .next ih hp hr

/-- What a run comes to is come to branch by branch. -/
theorem works_of_run {fuel : Nat} {t : Turn β} {r : Playback β × World β}
    (h : t.run fuel = some r) : ∃ stops u, t.Works stops u ∧ r = u.view ∧
      (u.ready = [] ∨ u.playback.phase ≠ .running) := by
  have hstep : ∀ (u : Turn β) (b : Branch) (rest : List Branch), (∃ stops, t.Works stops u) →
      u.playback.phase = .running → u.ready = b :: rest →
      ∃ stops, t.Works stops (({ u with ready := rest } : Turn β).advance b) := by
    rintro u b rest ⟨stops, hu⟩ hp hr
    exact ⟨_, hu.next hp hr⟩
  obtain ⟨u, ⟨stops, hu⟩, hr, hover⟩ := run_induction hstep ⟨[], .refl⟩ h
  exact ⟨stops, u, hu, hr, hover⟩

theorem Works.run_add {t u : Turn β} {stops : List (Nat × Bool)} (h : t.Works stops u) :
    ∃ steps, ∀ fuel, t.run (steps + fuel) = u.run fuel := by
  induction h with
  | refl => exact ⟨0, fun fuel => by rw [Nat.zero_add]⟩
  | next _ hp hr ih =>
    obtain ⟨steps, hsteps⟩ := ih
    refine ⟨steps + 1, fun fuel => ?_⟩
    rw [Nat.add_assoc, Nat.add_comm 1, hsteps, run_of_ready_eq_cons hp hr]

/-- A turn that comes to its end branch by branch is a run. -/
theorem Works.exists_run {t u : Turn β} {stops : List (Nat × Bool)} (h : t.Works stops u)
    (hover : u.ready = [] ∨ u.playback.phase ≠ .running) : ∃ fuel, t.run fuel = some u.view := by
  obtain ⟨steps, hsteps⟩ := h.run_add
  exact ⟨steps + 0, (hsteps 0).trans (run_of_over hover 0)⟩

/-- The row is first come first served: every branch that is ready is taken up, those behind it
after it. -/
theorem exists_works_of_mem_ready {t : Turn β} (hrun : t.playback.phase = .running)
    (hs : t.playback.skipping = false) {before after : List Branch} {c : Branch}
    (hr : t.ready = before ++ c :: after) : ∃ stops u more, t.Works stops u ∧
      u.playback.phase = .running ∧ u.playback.skipping = false ∧
        u.ready = c :: (after ++ more) := by
  induction before generalizing t after with
  | nil => exact ⟨[], t, [], .refl, hrun, hs, by rw [hr, List.append_nil, List.nil_append]⟩
  | cons b before ih =>
    -- The branch in question is still under way while the first one is taken up.
    have hne : ({ t with ready := before ++ c :: after } : Turn β).inFlight ≠ [] := by
      simp [inFlight]
    obtain ⟨hphase, hskip, ⟨more, hmore⟩, -⟩ :=
      (worked_advance (t := { t with ready := before ++ c :: after }) (b := b)
        fun h => by simp [hs] at h).keeps_row hs hne
    have hnext : t.Works _ _ := Works.refl.next hrun hr
    rw [List.append_assoc, List.cons_append] at hmore
    obtain ⟨stops, u, more', hu, hrun', hskip', hready⟩ := ih (hphase.trans hrun) hskip hmore
    exact ⟨_, u, more ++ more', hnext.trans hu, hrun', hskip', by
      rw [hready, List.append_assoc]⟩

/-- A branch that waits keeps waiting throughout a turn, and the playback running. -/
theorem Works.count_le {t u : Turn β} {stops : List (Nat × Bool)} (h : t.Works stops u)
    (hrun : t.playback.phase = .running) (hs : t.playback.skipping = false) {c : Branch}
    (hc : c ∈ t.playback.pending) : u.playback.phase = .running ∧ u.playback.skipping = false ∧
      t.playback.pending.count c ≤ u.playback.pending.count c := by
  induction h with
  | refl => exact ⟨hrun, hs, Nat.le_refl _⟩
  | @next _ u b rest _ hp hr ih =>
    obtain ⟨hrun', hskip, hcount⟩ := ih
    have hmem : c ∈ u.playback.pending := mem_of_count_le hc hcount
    have hne : ({ u with ready := rest } : Turn β).inFlight ≠ [] :=
      List.append_ne_nil_of_right_ne_nil _ (List.ne_nil_of_mem hmem)
    obtain ⟨hphase, hskip', -, more, hmore⟩ :=
      (worked_advance (t := { u with ready := rest }) (b := b)
        fun h => by simp [hskip] at h).keeps_row hskip hne
    refine ⟨hphase.trans hrun', hskip', ?_⟩
    rw [hmore, List.count_append]
    exact Nat.le_trans hcount (Nat.le_add_right _ _)

end Cutscene.Turn
