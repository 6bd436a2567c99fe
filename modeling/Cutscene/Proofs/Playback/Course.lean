import Cutscene.Proofs.Playback.Reached
import Cutscene.Proofs.Playback.Stops

/-!
# The course of a playback

Every operation begins with a turn (`Playback.beginning`), which has nothing to be taken up if the
operation does not work off branches; what the operation comes to is what that turn comes to
(`perform_eq`). `Playback.Course` follows a playback from operation to operation with the stops of
its branches, and `Playback.Moment` are the turns that occur anywhere on the course of a new
playback. Courses lead to the playbacks that a host can come by, and to no others
(`Course.reached`, `Reached.exists_course`).
-/

namespace Cutscene

variable {β : Type}

/-- A turn in which nothing is left to be taken up. -/
def Turn.still (s : Playback β × World β) : Turn β where
  playback := s.1
  world := s.2

namespace Playback

open Turn

/-! ### How operations begin -/

/-- The turn that playing begins with, if it does not kill the playback or wait first. -/
def playBeginning (p : Playback β) (w : World β) (start : Nat) (queue : Bool) : Turn β :=
  let s := p.stopped w
  let t := s.1.playTurn s.2 start queue
  if s.1.nodes.length ≤ start then .still (s.1.kill s.2)
  else if 0 < s.1.settings.startDelay && start = 0 then
    .still (t.defer { index := 0, step := .visit,
                      wake := t.playback.after s.1.settings.startDelay t.world }).view
  else t

/-- The turn that skipping begins with, if there is such a node. -/
def skipBeginning (p : Playback β) (w : World β) (start : Nat) : Turn β :=
  if p.nodes.length ≤ start then .still (p.kill w) else p.skipTurn w start

/-- The turn that resuming begins with, if there is a node to go on with. -/
def resumeBeginning (p : Playback β) (w : World β) (start : Nat) (points : List Nat)
    (parameters : String) (rerun : Bool) : Turn β :=
  if points = [] then p.playBeginning w start true
  else
    let s := p.interrupted w
    let t := s.1.resumeTurn s.2 start points parameters rerun
    if (t.playback.validPoints points).1 = [] then .still t.endRun.view else t

/-- The turn that an update begins with, if there are branches to be taken up. -/
def updateBeginning (p : Playback β) (w : World β) : Turn β :=
  if p.phase ≠ .running ∨ p.pending = [] then .still (p, w)
  else if w.registry.isLive p.id = false then
    .still ({ p.clearBranches with phase := .finished }, w.notice .unregistered)
  else if p.due w = [] then .still (p.waiting w, w)
  else if w.sceneLoading then
    if p.settings.survivesSceneChange && !p.isSkippable then .still ((p.waiting w).kill w)
    else .still ({ p.waiting w with pending := (p.waiting w).pending ++ p.due w }, w)
  else { playback := p.waiting w, world := w, ready := p.due w }

/-- The turn that an operation begins with. -/
def beginning [Behaviour β] (p : Playback β) (w : World β) : Operation → Turn β
  | .play start queue => p.playBeginning w start queue
  | .skip start => p.skipBeginning w start
  | .pause => .still (p.pause w)
  | .resume start points parameters rerun => p.resumeBeginning w start points parameters rerun
  | .kill => .still (p.kill w)
  | .update => p.updateBeginning w
  | .reset unqueue => .still (p.reset w unqueue)

variable [Behaviour β]

theorem run_still (s : Playback β × World β) (fuel : Nat) : (Turn.still s).run fuel = some s :=
  run_of_ready_eq_nil rfl fuel

theorem play_eq_run (fuel : Nat) (p : Playback β) (w : World β) (start : Nat) (queue : Bool) :
    p.play fuel w start queue = (p.playBeginning w start queue).run fuel := by
  rw [play_eq, playBeginning]
  dsimp only
  split_ifs
  · exact (run_still _ fuel).symm
  · exact (run_still _ fuel).symm
  · rfl

/-- What an operation comes to is what its turn comes to. -/
theorem perform_eq (fuel : Nat) (p : Playback β) (w : World β) (op : Operation) :
    p.perform fuel w op = (p.beginning w op).run fuel := by
  cases op with
  | play start queue => exact play_eq_run fuel p w start queue
  | skip start =>
    rw [perform, skip_eq, beginning, skipBeginning]
    split_ifs
    · exact (run_still _ fuel).symm
    · rfl
  | pause => exact (run_still _ fuel).symm
  | resume start points parameters rerun =>
    rw [perform, beginning, resumeBeginning]
    by_cases hp : points = []
    · -- Without a node to go on with the playback is run from the start.
      rw [if_pos hp, hp, resume_of_nil]
      exact play_eq_run fuel p w start true
    · rw [if_neg hp, resume_of_ne_nil fuel p w start hp]
      dsimp only
      split_ifs
      · exact (run_still _ fuel).symm
      · rfl
  | kill => exact (run_still _ fuel).symm
  | update =>
    rw [perform, beginning, updateBeginning]
    by_cases hidle : p.phase ≠ .running ∨ p.pending = []
    · -- Nothing waits, so the update is over at once.
      rw [if_pos hidle, update_of_nothing_waiting fuel w hidle]
      exact (run_still _ fuel).symm
    · rw [if_neg hidle]
      rw [not_or, not_not] at hidle
      obtain ⟨hrun, hpending⟩ := hidle
      cases hlive : w.registry.isLive p.id with
      | false =>
        rw [if_pos rfl, update_of_not_isLive fuel hrun hpending hlive]
        exact (run_still _ fuel).symm
      | true =>
        rw [if_neg (by decide), update_of_isLive fuel hrun hpending hlive]
        split_ifs
        · exact (run_still _ fuel).symm
        · exact (run_still _ fuel).symm
        · exact (run_still _ fuel).symm
        · rfl
  | reset unqueue => exact (run_still _ fuel).symm

omit [Behaviour β] in
theorem Sound.still {p : Playback β} (h : p.Sound) (w : World β) :
    (Turn.still (p, w)).Sound where
  stopped _ := h
  waits hrun := Or.inr (h.waits hrun)
  skips _ hs := by
    have htrue : p.skipping = true := hs
    simp [h.notSkipping] at htrue
  polled _ := h.polled

/-- Every operation on a sound playback begins with a sound turn. -/
theorem Sound.beginning {p : Playback β} {w : World β} (h : p.Sound) (hlive : IsLive p w)
    (op : Operation) : (p.beginning w op).Sound := by
  by_cases hready : (p.beginning w op).ready = []
  · -- The operation is over at once, and leaves a sound playback.
    have hperform : p.perform 0 w op = some (p.beginning w op).view := by
      rw [perform_eq, run_of_ready_eq_nil hready]
    have hsound := (h.perform hlive hperform).still (p.beginning w op).world
    rw [Turn.still, ← hready] at hsound
    exact hsound
  · have hplay : ∀ start queue, (p.playBeginning w start queue).ready ≠ [] →
        (p.playBeginning w start queue).Sound := by
      intro start queue hready
      unfold playBeginning at hready ⊢
      dsimp only at hready ⊢
      split_ifs at hready ⊢
      · exact absurd rfl hready
      · exact absurd rfl hready
      · exact (working_playTurn _ _ start queue _).sound (Or.inl hready)
    cases op with
    | play start queue => exact hplay start queue hready
    | skip start =>
      change (p.skipBeginning w start).Sound
      change (p.skipBeginning w start).ready ≠ [] at hready
      unfold skipBeginning at hready ⊢
      split_ifs at hready ⊢
      · exact absurd rfl hready
      · exact (p.working_skipTurn w start).sound (Or.inl hready)
    | resume start points parameters rerun =>
      change (p.resumeBeginning w start points parameters rerun).Sound
      change (p.resumeBeginning w start points parameters rerun).ready ≠ [] at hready
      unfold resumeBeginning at hready ⊢
      dsimp only at hready ⊢
      split_ifs at hready ⊢
      · exact hplay start true hready
      · exact absurd rfl hready
      · exact (working_resumeTurn _ _ start points parameters rerun).sound (Or.inl hready)
    | update =>
      change (p.updateBeginning w).Sound
      change (p.updateBeginning w).ready ≠ [] at hready
      unfold updateBeginning at hready ⊢
      split_ifs at hready ⊢ with hidle
      · exact absurd rfl hready
      · exact absurd rfl hready
      · exact absurd rfl hready
      · exact absurd rfl hready
      · exact absurd rfl hready
      · -- Only what is due now is taken up. In the other cases there is nothing ready.
        rw [not_or, not_not] at hidle
        exact (h.working_update hidle.1).sound (Or.inl hready)
    | _ => exact absurd rfl hready

/-! ### From operation to operation -/

/-- What becomes of a playback and the world around it, call by call, if only certain calls are
made. The stops of branches on the way are listed latest first. -/
inductive Course (allowed : Playback β → World β → Operation → Prop) (s : Playback β × World β) :
    List (Nat × Bool) → Playback β × World β → Prop
  | refl : Course allowed s [] s
  /-- The host does something with it; the call returns. -/
  | perform {stops more : List (Nat × Bool)} {p : Playback β} {w : World β} {op : Operation}
    {u : Turn β} (h : Course allowed s stops (p, w)) (hop : allowed p w op)
    (hu : (p.beginning w op).Works more u) (hover : u.ready = [] ∨ u.playback.phase ≠ .running) :
    Course allowed s (more ++ stops) u.view
  /-- Anything happens to the world but to the record of the playback. -/
  | elsewhere {stops : List (Nat × Bool)} {p : Playback β} {w w' : World β}
    (h : Course allowed s stops (p, w))
    (hw : w'.registry.record? p.id = w.registry.record? p.id) : Course allowed s stops (p, w')

/-- Any call may be made. -/
def AnyCall (_ : Playback β) (_ : World β) (_ : Operation) : Prop := True

theorem Course.trans {allowed : Playback β → World β → Operation → Prop}
    {s s' s'' : Playback β × World β} {stops stops' : List (Nat × Bool)}
    (h : Course AnyCall s stops s') (h' : Course allowed s' stops' s'') :
    Course AnyCall s (stops' ++ stops) s'' := by
  induction h' with
  | refl => exact h
  | perform _ _ hu hover ih =>
    rw [List.append_assoc]
    exact .perform ih trivial hu hover
  | elsewhere _ hw ih => exact .elsewhere ih hw

theorem Course.reached {allowed : Playback β → World β → Operation → Prop}
    {s s' : Playback β × World β} {stops : List (Nat × Bool)} (h : Course allowed s stops s')
    (hs : Reached s.1 s.2) : Reached s'.1 s'.2 := by
  induction h with
  | refl => exact hs
  | @perform _ _ p w op u _ _ hu hover ih =>
    obtain ⟨fuel, hr⟩ := hu.exists_run hover
    rw [← perform_eq] at hr
    exact ih.perform hr
  | elsewhere _ hw ih => exact .elsewhere ih hw

/-- A call that returns goes on with the course. -/
theorem Course.exists_perform {allowed : Playback β → World β → Operation → Prop}
    {s r : Playback β × World β} {stops : List (Nat × Bool)} {p : Playback β} {w : World β}
    {op : Operation} {fuel : Nat} (h : Course allowed s stops (p, w)) (hop : allowed p w op)
    (hr : p.perform fuel w op = some r) : ∃ more, Course allowed s (more ++ stops) r := by
  rw [perform_eq] at hr
  obtain ⟨more, u, hu, rfl, hover⟩ := works_of_run hr
  exact ⟨more, h.perform hop hu hover⟩

/-- Every playback that a host can come by is on the course of a new one. -/
theorem Reached.exists_course {p : Playback β} {w : World β} (h : Reached p w) :
    ∃ p₀ w₀ stops, p₀.IsNew ∧ Course AnyCall (p₀, w₀) stops (p, w) := by
  induction h with
  | @new p h w => exact ⟨p, w, [], h, .refl⟩
  | perform _ hr ih =>
    obtain ⟨p₀, w₀, stops, hnew, hcourse⟩ := ih
    obtain ⟨more, hmore⟩ := hcourse.exists_perform trivial hr
    exact ⟨p₀, w₀, more ++ stops, hnew, hmore⟩
  | elsewhere _ hw ih =>
    obtain ⟨p₀, w₀, stops, hnew, hcourse⟩ := ih
    exact ⟨p₀, w₀, stops, hnew, hcourse.elsewhere hw⟩

/-- A turn at some moment in the life of a playback: some calls have been made, and the present one
has come this far. All stops up to now are listed latest first. -/
inductive Moment : List (Nat × Bool) → Turn β → Prop
  | during {p₀ p : Playback β} {w₀ w : World β} {stops more : List (Nat × Bool)} {t : Turn β}
    (hnew : p₀.IsNew) (h : Course AnyCall (p₀, w₀) stops (p, w)) (op : Operation)
    (ht : (p.beginning w op).Works more t) : Moment (more ++ stops) t

end Playback

end Cutscene
