import Cutscene.Proofs.Playback.Course

/-!
# What a branch finds that goes on with a node

The mark of a node says what the branch that stopped there last has done, and of the branches that
wait in the node it says nothing else. `Turn.Recorded` puts this down for every node that some
branch waits in. Taking up a branch keeps it (`Worked.recorded`), and so does the beginning of every
operation (`Sound.recorded_beginning`), since a new run begins without such branches. It holds at
any moment in the life of a playback (`Moment.recorded`).
-/

namespace Cutscene

variable {β : Type}

namespace Turn

open Playback

/-! ### Marks and stops -/

/-- As long as the playback runs, the mark of every node that some branch waits in is what the last
branch that stopped there has left behind. -/
def Recorded (t : Turn β) (stops : List (Nat × Bool)) : Prop :=
  t.playback.phase = .running → ∀ index, IsPolled t.inFlight index →
    stops.lookup index = some (t.playback.isRunningAt index)

/-- A turn that goes on has no other branches that go on with nodes. -/
theorem Onward.isPolled {t u : Turn β} (h : t.Onward u) {index : Nat}
    (hu : IsPolled u.inFlight index) : IsPolled t.inFlight index := by
  obtain ⟨b, hb, hpoll, hindex⟩ := hu
  obtain ⟨more, hready, hvisits⟩ := h.ready
  obtain ⟨more', hpending, hvisits'⟩ := h.pending
  have hnot : b.step ≠ .visit := by simp [hpoll]
  rw [inFlight, hready, hpending] at hb
  simp only [List.mem_append] at hb
  refine ⟨b, List.mem_append.mpr ?_, hpoll, hindex⟩
  rcases hb with (hb | hb) | (hb | hb)
  · exact Or.inl hb
  · exact absurd (hvisits b hb) hnot
  · exact Or.inr hb
  · exact absurd (hvisits' b hb) hnot

variable [Behaviour β]

omit [Behaviour β] in
theorem lookup_toList_of_ne {index i : Nat} (h : i ≠ index) (waits : Bool)
    (stops : List (Nat × Bool)) :
    ((some (index, waits)).toList ++ stops).lookup i = stops.lookup i := by
  rw [Option.toList_some, List.singleton_append, List.lookup_cons, beq_eq_false_iff_ne.mpr h]

omit [Behaviour β] in
theorem lookup_toList_self (index : Nat) (waits : Bool) (stops : List (Nat × Bool)) :
    ((some (index, waits)).toList ++ stops).lookup index = some waits := by
  rw [Option.toList_some, List.singleton_append, List.lookup_cons, beq_self_eq_true]

/-- A run that returns marks its node, and no other. -/
theorem isRunningAt_ran {t : Turn β} {index : Nat} {node : Node β}
    (hn : t.playback.nodes[index]? = some node) (running : Bool) (b : β) (i : Nat) :
    (t.ran index running b).playback.isRunningAt i =
      if i = index then (t.runOutcome index running b).running else t.playback.isRunningAt i := by
  split_ifs with hi
  · subst hi
    rw [isRunningAt, getElem?_ran hn]
    rfl
  · rw [ran, called, isRunningAt_modifyNode, if_neg hi]

/-- One branch: it changes the mark of the node at which it stops and no other. -/
theorem Worked.recorded {t u : Turn β} {b : Branch} {stop : Option (Nat × Bool)}
    {stops : List (Nat × Bool)} (h : t.Worked b stop u) (ht : t.Recorded stops)
    (hrun : t.playback.phase = .running) : u.Recorded (stop.toList ++ stops) := by
  intro hgoes i hi
  cases h with
  | stops hstop _ => exact absurd hgoes hstop
  | passes h =>
    rw [h.isRunningAt]
    exact ht hrun i (h.isPolled hi)
  | leaves h =>
    rw [h.isRunningAt, isRunningAt_rest]
    split_ifs with hindex
    · subst hindex
      exact lookup_toList_self _ _ _
    · rw [lookup_toList_of_ne hindex]
      exact ht hrun i (h.isPolled hi)
  | @stays node running behaviour hn ho =>
    change _ = some ((t.ran b.index running behaviour).playback.isRunningAt i)
    rw [isRunningAt_ran hn, ho]
    split_ifs with hindex
    · subst hindex
      exact lookup_toList_self _ _ _
    · rw [lookup_toList_of_ne hindex]
      -- The branch that waits in the node is not the one that has just begun to wait.
      obtain ⟨c, hc, hpoll, rfl⟩ := hi
      refine ht hrun c.index ⟨c, ?_, hpoll, rfl⟩
      have hc : c ∈ t.ready ++ (t.playback.pending ++ [(t.ran b.index running behaviour).nextPoll
        b.index (t.runOutcome b.index running behaviour).wait]) := hc
      rw [← List.append_assoc, List.mem_append, List.mem_singleton] at hc
      rcases hc with hc | rfl
      · exact hc
      · exact absurd rfl hindex

/-- Branch after branch. -/
theorem Works.sound {t u : Turn β} {stops : List (Nat × Bool)} (h : t.Works stops u)
    (ht : t.Sound) : u.Sound := by
  induction h with
  | refl => exact ht
  | next _ hp hr ih => exact sound_advance ih hp hr

theorem Works.recorded {t u : Turn β} {stops more : List (Nat × Bool)} (h : t.Works more u)
    (hsound : t.Sound) (ht : t.Recorded stops) : u.Recorded (more ++ stops) := by
  induction h with
  | refl => exact ht
  | @next more u b rest h hp hr ih =>
    have hrest : ({ u with ready := rest } : Turn β).Recorded (more ++ stops) := by
      rintro hrun i ⟨c, hc, hpoll⟩
      refine ih hrun i ⟨c, ?_, hpoll⟩
      rw [inFlight, hr, List.cons_append]
      exact List.mem_cons_of_mem b hc
    have hvisit : u.playback.skipping = true → b.step = .visit := fun hs =>
      ((h.sound hsound).skips hp hs).2.2 b (by simp [hr])
    rw [List.append_assoc]
    exact (worked_advance (t := { u with ready := rest }) hvisit).recorded hrest hp

end Turn

namespace Playback

open Turn

variable [Behaviour β]

omit [Behaviour β] in
theorem not_isPolled_of_forall {branches : List Branch} (h : ∀ b ∈ branches, b.step ≠ .poll)
    (index : Nat) : ¬ IsPolled branches index := by
  rintro ⟨b, hb, hpoll, -⟩
  exact h b hb hpoll

omit [Behaviour β] in
/-- No branch goes on with a node when playing begins. -/
theorem not_isPolled_playBeginning (p : Playback β) (w : World β) (start : Nat) (queue : Bool)
    (hrun : (p.playBeginning w start queue).playback.phase = .running) (index : Nat) :
    ¬ IsPolled (p.playBeginning w start queue).inFlight index := by
  unfold playBeginning at hrun ⊢
  dsimp only at hrun ⊢
  split_ifs at hrun ⊢
  · simp [Turn.still, kill] at hrun
  · refine not_isPolled_of_forall ?_ index
    simp [Turn.still, inFlight, view, defer, playTurn, restarted, clearBranches, forgetChoices]
  · refine not_isPolled_of_forall ?_ index
    simp [inFlight, playTurn, restarted, clearBranches, forgetChoices]

/-- A branch that goes on with a node as an operation begins has waited for that before. -/
theorem isPolled_beginning {p : Playback β} {w : World β} (hsound : p.Sound) {op : Operation}
    (hrun : (p.beginning w op).playback.phase = .running) {index : Nat}
    (h : IsPolled (p.beginning w op).inFlight index) :
    p.phase = .running ∧ IsPolled p.pending index ∧
      (p.beginning w op).playback.isRunningAt index = p.isRunningAt index := by
  cases op with
  | play start queue => exact absurd h (p.not_isPolled_playBeginning w start queue hrun index)
  | skip start =>
    change (p.skipBeginning w start).playback.phase = .running at hrun
    change IsPolled (p.skipBeginning w start).inFlight index at h
    unfold skipBeginning at hrun h
    split_ifs at hrun h
    · simp [Turn.still, kill] at hrun
    · -- A skip begins with a branch that arrives.
      refine absurd h (not_isPolled_of_forall ?_ index)
      simp [inFlight, skipTurn, p.skippingFrom_pending start]
  | pause =>
    have hrun : (p.pause w).1.phase = .running := hrun
    have h : IsPolled (p.pause w).1.pending index := h
    change _ ∧ _ ∧ (p.pause w).1.isRunningAt index = _
    by_cases hp : p.phase = .running
    · rw [pause_of_playing w hp hsound.notSkipping] at hrun h ⊢
      split_ifs at hrun h ⊢
      · -- The pause has taken effect, and nothing runs.
        simp [view, endPause] at hrun
      · -- The pause leaves out branches and changes none.
        exact ⟨hp, h.mono fun b hb => List.mem_of_mem_filter hb, rfl⟩
    · rw [pause_of_not_playing w (Or.inl hp)] at hrun
      exact absurd hrun hp
  | resume start points parameters rerun =>
    change (p.resumeBeginning w start points parameters rerun).playback.phase = .running at hrun
    change IsPolled (p.resumeBeginning w start points parameters rerun).inFlight index at h
    unfold resumeBeginning at hrun h
    dsimp only at hrun h
    split_ifs at hrun h
    · exact absurd h (p.not_isPolled_playBeginning w start true hrun index)
    · -- There was no node to go on with, and the run ends.
      simp [Turn.still, view, endRun] at hrun
    · -- What is resumed arrives or resolves, and nothing of it polls.
      refine absurd h (not_isPolled_of_forall ?_ index)
      intro b hb
      rw [inFlight, List.mem_append] at hb
      rcases hb with hb | hb
      · obtain ⟨point, -, rfl⟩ := List.mem_map.mp hb
        dsimp only
        split_ifs <;> simp
      · simp [resumeTurn, revived, clearBranches] at hb
  | kill => simp [beginning, Turn.still, kill] at hrun
  | update =>
    change (p.updateBeginning w).playback.phase = .running at hrun
    change IsPolled (p.updateBeginning w).inFlight index at h
    change _ ∧ _ ∧ (p.updateBeginning w).playback.isRunningAt index = _
    unfold updateBeginning at hrun h ⊢
    split_ifs at hrun h ⊢ with hidle
    · -- Nothing waits, so nothing changes.
      exact ⟨hrun, h, rfl⟩
    · -- The record is gone, and the playback with it.
      simp [Turn.still] at hrun
    · -- Nothing is due.
      exact ⟨hrun, h.mono fun b hb => List.mem_of_mem_filter hb, rfl⟩
    · simp [Turn.still, kill] at hrun
    · -- What is due is put off.
      refine ⟨hrun, h.mono fun b hb => ?_, rfl⟩
      have hb : b ∈ (p.waiting w).pending ++ p.due w := hb
      exact (List.mem_append.mp hb).elim List.mem_of_mem_filter List.mem_of_mem_filter
    · -- What is due is taken up.
      refine ⟨hrun, h.mono fun b hb => ?_, rfl⟩
      have hb : b ∈ p.due w ++ (p.waiting w).pending := hb
      exact (List.mem_append.mp hb).elim List.mem_of_mem_filter List.mem_of_mem_filter
  | reset unqueue =>
    have hrun : (p.reset w unqueue).1.phase = .running := hrun
    have h : IsPolled (p.reset w unqueue).1.pending index := h
    change _ ∧ _ ∧ (p.reset w unqueue).1.isRunningAt index = _
    unfold Playback.reset at hrun h ⊢
    split_ifs at hrun h ⊢
    · exact ⟨hrun, h, rfl⟩
    · exact absurd hrun p.halt_phase_ne_running

/-! ### At any moment -/

/-- An operation changes no mark that a branch waits for before branches are taken up. -/
theorem Sound.recorded_beginning {p : Playback β} {w : World β} {stops : List (Nat × Bool)}
    (hsound : p.Sound) (h : (Turn.still (p, w)).Recorded stops) (op : Operation) :
    (p.beginning w op).Recorded stops := by
  intro hrun index hi
  obtain ⟨hrun', hpolled, hmark⟩ := isPolled_beginning hsound hrun hi
  rw [hmark]
  exact h hrun' index hpolled

theorem Course.recorded {p₀ : Playback β} {w₀ : World β} {s : Playback β × World β}
    {stops : List (Nat × Bool)} (hnew : p₀.IsNew) (h : Course AnyCall (p₀, w₀) stops s) :
    (Turn.still s).Recorded stops := by
  induction h with
  | refl =>
    -- A new playback does not run, so there is nothing to be said.
    intro hrun
    have hidle : p₀.phase = .running := hrun
    simp [hnew.phase] at hidle
  | @perform stops more p w op u h _ hu hover ih =>
    have hreached : Reached p w := h.reached (.new hnew w₀)
    have hsound := sound_of_reached hreached
    have hend := hu.recorded (hsound.beginning hreached.isLive op) (hsound.recorded_beginning ih op)
    intro hrun index hi
    -- The turn is over, so nothing in it is left to be taken up.
    have hready : u.ready = [] := hover.resolve_right (not_not_intro hrun)
    refine hend hrun index ?_
    rw [inFlight, hready]
    exact hi
  | elsewhere _ _ ih => exact ih

/-- At any moment, the mark of a node that some branch waits in says whether the last branch that
stopped there has stayed. -/
theorem Moment.recorded {stops : List (Nat × Bool)} {t : Turn β} (h : Moment stops t) :
    t.Recorded stops := by
  obtain @⟨p₀, p, w₀, w, stops, more, t, hnew, hcourse, op, ht⟩ := h
  have hreached : Reached p w := hcourse.reached (.new hnew w₀)
  have hsound := sound_of_reached hreached
  exact ht.recorded (hsound.beginning hreached.isLive op)
    (hsound.recorded_beginning (hcourse.recorded hnew) op)

end Playback

end Cutscene
