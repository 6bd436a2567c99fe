import Cutscene.Proofs.Playback.Updates

/-!
# Waiting for a scene

While a scene is being loaded nothing is taken up. A playback that outlasts scenes but cannot be
skipped is killed as soon as a branch of it is due (`Playback.isCutOff`); any other one puts the
branches that are due behind those that are not (`Playback.throughScene`,
`update_eq_throughScene`). This happens at every update, so in the course of a scene change the
branches change places: `PutOff` says exactly where a branch ends up after any number of updates.
-/

namespace Cutscene

/-- At which of some moments a branch is due. -/
def Branch.dueAt (b : Branch) (moments : List Clock) : List Bool := moments.map b.wake.isDue

theorem Branch.dueAt_cons {b : Branch} {moment : Clock} {later : List Clock} {due : Bool}
    {rest : List Bool} : b.dueAt (moment :: later) = due :: rest ↔
      b.wake.isDue moment = due ∧ b.dueAt later = rest :=
  List.cons_eq_cons

/-- The last of some moments at which one of two branches is due and the other is not is one at
which the second branch is. -/
def Branch.LaterDue : List Clock → Branch → Branch → Prop
  | [], _, _ => False
  | moment :: later, b, b' => LaterDue later b b' ∨
    b.dueAt later = b'.dueAt later ∧ b.wake.isDue moment = false ∧ b'.wake.isDue moment = true

/-- Branches that wait have been put off: of two that have been due at different moments, the one
that has been due later on stands behind, and those that have always been due together stand as they
stood. -/
structure PutOff (moments : List Clock) (before after : List Branch) : Prop where
  perm : after.Perm before
  ordered : after.Pairwise fun b b' => ¬ Branch.LaterDue moments b' b
  steady : ∀ due, after.filter (·.dueAt moments = due) = before.filter (·.dueAt moments = due)

/-- Branches that are due are put behind those that are not. -/
def putOff (moment : Clock) (branches : List Branch) : List Branch :=
  branches.filter (!·.wake.isDue moment) ++ branches.filter (·.wake.isDue moment)

theorem putOff_perm (moment : Clock) (branches : List Branch) :
    (putOff moment branches).Perm branches :=
  List.perm_append_comm.trans (List.filter_append_perm _ branches)

theorem putOff_of_length_le_one (moment : Clock) {branches : List Branch}
    (h : branches.length ≤ 1) : putOff moment branches = branches := by
  rcases branches with _ | ⟨b, _ | _⟩
  · rfl
  · exact List.perm_singleton.mp (putOff_perm moment [b])
  · simp at h

/-- Those that are due stand as they stood, and so do those that are not. -/
theorem filter_putOff (moment : Clock) (branches : List Branch) (due : Bool) :
    (putOff moment branches).filter (·.wake.isDue moment = due) =
      branches.filter (·.wake.isDue moment = due) := by
  cases due <;> simp [putOff, List.filter_append, List.filter_filter]

theorem pairwise_putOff (moment : Clock) (branches : List Branch) :
    (putOff moment branches).Pairwise fun b b' =>
      ¬(b'.wake.isDue moment = false ∧ b.wake.isDue moment = true) := by
  refine List.pairwise_append.mpr ⟨?_, ?_, fun b hb b' _ => ?_⟩
  · refine List.pairwise_iff_forall_sublist.mpr fun {b b'} hsub => ?_
    have hnot := (List.mem_filter.mp (hsub.subset List.mem_cons_self)).2
    simp_all
  · refine List.pairwise_iff_forall_sublist.mpr fun {b b'} hsub => ?_
    have hdue := (List.mem_filter.mp (hsub.subset (List.mem_cons_of_mem _ List.mem_cons_self))).2
    simp_all
  · have hnot := (List.mem_filter.mp hb).2
    simp_all

/-- What holds of the elements of a list with the same key, in their order, holds of any two with
the same key. -/
theorem pairwise_of_filter {α κ : Type} [DecidableEq κ] {key : α → κ} {R : α → α → Prop}
    {l : List α} (h : ∀ k, (l.filter (key · = k)).Pairwise R) :
    l.Pairwise fun a b => key a = key b → R a b := by
  induction l with
  | nil => exact .nil
  | cons a rest ih =>
    refine List.pairwise_cons.mpr ⟨fun b hb hkey => ?_, ih fun k => ?_⟩
    · have hsame := h (key a)
      rw [List.filter_cons_of_pos (by simp)] at hsame
      exact List.rel_of_pairwise_cons hsame (List.mem_filter.mpr ⟨hb, by simp [hkey]⟩)
    · exact (h k).sublist ((List.sublist_cons_self a rest).filter _)

theorem PutOff.refl (branches : List Branch) : PutOff [] branches branches where
  perm := .refl _
  ordered := List.pairwise_iff_forall_sublist.mpr fun _ h => h
  steady _ := rfl

/-- The branches that are put off once are those that are put off from then on. -/
theorem PutOff.cons {moment : Clock} {later : List Clock} {before after : List Branch}
    (h : PutOff later (putOff moment before) after) : PutOff (moment :: later) before after where
  perm := h.perm.trans (putOff_perm moment before)
  ordered := by
    -- Among those that are due together from now on the present moment decides.
    have hgroup : ∀ due, (after.filter (·.dueAt later = due)).Pairwise fun b b' =>
        ¬(b'.wake.isDue moment = false ∧ b.wake.isDue moment = true) := fun due => by
      rw [h.steady due]
      exact (pairwise_putOff moment before).sublist List.filter_sublist
    refine (h.ordered.and (pairwise_of_filter hgroup)).imp ?_
    rintro b b' ⟨hlater, hnow⟩ (hput | ⟨hsame, hnot, hdue⟩)
    · exact hlater hput
    · exact hnow hsame.symm ⟨hnot, hdue⟩
  steady := by
    rintro (_ | ⟨due, rest⟩)
    · simp [Branch.dueAt]
    · have hsplit : ∀ l : List Branch, l.filter (·.dueAt (moment :: later) = due :: rest) =
          (l.filter (·.dueAt later = rest)).filter (·.wake.isDue moment = due) := fun l => by
        rw [List.filter_filter]
        exact List.filter_congr fun b _ => by simp only [Branch.dueAt_cons, Bool.decide_and]
      rw [hsplit, hsplit, h.steady, List.filter_comm, filter_putOff, List.filter_comm]

namespace Playback

variable {β : Type}

/-- A scene change takes a playback by surprise: it outlasts scenes and cannot be skipped, but has
something due at one of some moments. -/
def isCutOff (p : Playback β) (moments : List Clock) : Bool :=
  p.isRunning && p.settings.survivesSceneChange && !p.isSkippable &&
    moments.any fun moment => p.pending.any (·.wake.isDue moment)

/-- The branches of a playback after an update while a scene is being loaded. -/
def pendingThrough (p : Playback β) (moment : Clock) : List Branch :=
  if p.phase = .running then putOff moment p.pending else p.pending

/-- What an update makes of a playback while a scene is being loaded. -/
def throughScene (p : Playback β) (w : World β) : Playback β × World β :=
  if p.isCutOff [w.clock] then p.kill w
  else ({ p with pending := p.pendingThrough w.clock }, w)

theorem isRunning_of_isCutOff {p : Playback β} {moments : List Clock}
    (h : p.isCutOff moments = true) : p.phase = .running := by
  simp only [isCutOff, Bool.and_eq_true] at h
  simpa [isRunning] using h.1.1.1

variable [Behaviour β]

/-- While a scene is being loaded no branch is taken up. -/
theorem update_eq_throughScene (fuel : Nat) {p : Playback β} {w : World β}
    (hw : w.sceneLoading = true) (hl : IsLive p w) :
    p.update fuel w = some (p.throughScene w) := by
  unfold throughScene pendingThrough
  by_cases hrun : p.phase = .running
  swap
  · rw [update_of_nothing_waiting fuel w (Or.inl hrun), if_neg hrun,
      if_neg fun hcut => hrun (isRunning_of_isCutOff hcut)]
  rw [if_pos hrun]
  by_cases hpending : p.pending = []
  · have hput : ({ p with pending := putOff w.clock p.pending } : Playback β) = p := by
      rw [hpending, putOff, List.filter_nil, List.filter_nil, List.append_nil, ← hpending]
    rw [update_of_nothing_waiting fuel w (Or.inr hpending), hput, if_neg]
    simp [isCutOff, hpending]
  · rw [update_of_isLive fuel hrun hpending (hl hrun)]
    by_cases hdue : p.due w = []
    · -- Nothing is put off.
      have hnone : ∀ b ∈ p.pending, ¬ b.wake.isDue w.clock = true := List.filter_eq_nil_iff.mp hdue
      have hcut : p.isCutOff [w.clock] = false := by
        simpa [isCutOff] using fun _ _ _ => hnone
      rw [if_pos hdue, hcut, if_neg Bool.false_ne_true]
      simp only [putOff, List.filter_eq_nil_iff.mpr hnone, List.append_nil]
      rfl
    · obtain ⟨b, hb⟩ := List.exists_mem_of_ne_nil _ hdue
      have hany : p.pending.any (·.wake.isDue w.clock) = true :=
        List.any_eq_true.mpr ⟨b, List.mem_filter.mp hb⟩
      have hcut : p.isCutOff [w.clock] =
          (p.settings.survivesSceneChange && !p.isSkippable) := by
        simp [isCutOff, isRunning, hrun, hany]
      rw [if_neg hdue, if_pos hw, hcut]
      split_ifs
      · rfl
      · rfl

end Playback

end Cutscene
