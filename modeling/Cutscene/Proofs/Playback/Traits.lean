import Cutscene.Proofs.Playback.Links

/-!
# Traits of nodes

A trait of a node that does not show how far a run has come (`Node.Lasting`) is not changed by the
way an operation begins (`Playback.traits_beginning`). If it does not depend on what the behaviour
of the node is like either (`Node.Fixed`), then no operation changes it at all
(`Playback.traits_perform`): so it is with the places that nodes lead to and with the nodes that are
passed over.
-/

namespace Cutscene

variable {β κ : Type} {trait : Node β → κ}

namespace Playback

/-! ### How operations begin -/

section

variable (h : Node.Lasting trait)

include h

theorem traits_clearBranches (p : Playback β) :
    p.clearBranches.nodes.map trait = p.nodes.map trait := by
  change (p.nodes.map fun n => { n with running := false }).map trait = _
  rw [List.map_map]
  exact List.map_congr_left fun n _ => h.running n false

theorem traits_forgetChoices (p : Playback β) :
    p.forgetChoices.nodes.map trait = p.nodes.map trait := by
  change (p.nodes.map fun n => { n with memo := none }).map trait = _
  rw [List.map_map]
  exact List.map_congr_left fun n _ => h.memo n none

theorem traits_halt (p : Playback β) : p.halt.nodes.map trait = p.nodes.map trait := by
  unfold halt
  dsimp only
  split_ifs
  · exact traits_clearBranches h p
  · exact traits_clearBranches h p

theorem traits_stopped (p : Playback β) (w : World β) :
    (p.stopped w).1.nodes.map trait = p.nodes.map trait := by
  unfold stopped
  split_ifs
  · exact traits_clearBranches h p
  · rfl

theorem traits_interrupted (p : Playback β) (w : World β) :
    (p.interrupted w).1.nodes.map trait = p.nodes.map trait := by
  unfold interrupted
  split_ifs
  · exact traits_clearBranches h p
  · rfl

theorem traits_playBeginning (p : Playback β) (w : World β) (start : Nat) (queue : Bool) :
    (p.playBeginning w start queue).playback.nodes.map trait = p.nodes.map trait := by
  have hstopped := traits_stopped h p w
  have hbegun : ((p.stopped w).1.playTurn (p.stopped w).2 start queue).playback.nodes.map trait =
      p.nodes.map trait :=
    ((traits_forgetChoices h _).trans (traits_clearBranches h _)).trans hstopped
  unfold playBeginning
  dsimp only
  split_ifs
  · exact (traits_clearBranches h _).trans hstopped
  · exact hbegun
  · exact hbegun

theorem traits_skipBeginning (p : Playback β) (w : World β) (start : Nat) :
    (p.skipBeginning w start).playback.nodes.map trait = p.nodes.map trait := by
  unfold skipBeginning
  split_ifs
  · exact traits_clearBranches h p
  · change (p.skippingFrom start).nodes.map trait = _
    unfold skippingFrom
    split_ifs
    · exact traits_clearBranches h p
    · exact (traits_forgetChoices h _).trans (traits_clearBranches h p)

theorem traits_resumeBeginning (p : Playback β) (w : World β) (start : Nat) (points : List Nat)
    (parameters : String) (rerun : Bool) :
    (p.resumeBeginning w start points parameters rerun).playback.nodes.map trait =
      p.nodes.map trait := by
  unfold resumeBeginning
  split_ifs
  · exact traits_playBeginning h p w start true
  · have hresumed : ((p.interrupted w).1.resumeTurn (p.interrupted w).2 start points parameters
        rerun).playback.nodes.map trait = p.nodes.map trait :=
      (traits_clearBranches h _).trans (traits_interrupted h p w)
    dsimp only
    split_ifs
    · exact hresumed
    · exact hresumed

theorem traits_updateBeginning (p : Playback β) (w : World β) :
    (p.updateBeginning w).playback.nodes.map trait = p.nodes.map trait := by
  unfold updateBeginning
  split_ifs
  · rfl
  · exact traits_clearBranches h p
  · rfl
  · exact traits_clearBranches h (p.waiting w)
  · rfl
  · rfl

/-- No operation changes a trait before a branch is taken up. -/
theorem traits_beginning [Behaviour β] (p : Playback β) (w : World β) (op : Operation) :
    (p.beginning w op).playback.nodes.map trait = p.nodes.map trait := by
  cases op with
  | play start queue => exact traits_playBeginning h p w start queue
  | skip start => exact traits_skipBeginning h p w start
  | pause =>
    change (p.pause w).1.nodes.map trait = _
    by_cases hidle : p.phase ≠ .running ∨ p.skipping = true
    · rw [pause_of_not_playing w hidle]
    · obtain ⟨hrun, hskip⟩ : p.phase = .running ∧ p.skipping = false := by simpa using hidle
      rw [pause_of_playing w hrun hskip]
      split_ifs
      · rfl
      · rfl
  | resume start points parameters rerun =>
    exact traits_resumeBeginning h p w start points parameters rerun
  | kill => exact traits_clearBranches h p
  | update => exact traits_updateBeginning h p w
  | reset unqueue =>
    change (p.reset w unqueue).1.nodes.map trait = _
    unfold reset
    split_ifs
    · rfl
    · exact traits_halt h p

end

/-! ### Whole operations -/

variable [Behaviour β] {p : Playback β} {w : World β} {op : Operation}

theorem identity_beginning (p : Playback β) (w : World β) (op : Operation) :
    (p.beginning w op).playback.identity = p.identity := by
  by_cases hready : (p.beginning w op).ready = []
  · -- The operation is over at once.
    have hperform : p.perform 0 w op = some (p.beginning w op).view := by
      rw [perform_eq, Turn.run_of_ready_eq_nil hready]
    exact identity_perform hperform
  · have hplay : ∀ start queue, (p.playBeginning w start queue).ready ≠ [] →
        (p.playBeginning w start queue).playback.identity = p.identity := by
      intro start queue hready
      unfold playBeginning at hready ⊢
      dsimp only at hready ⊢
      split_ifs at hready ⊢
      · exact absurd rfl hready
      · exact absurd rfl hready
      · change (p.stopped w).1.identity = p.identity
        unfold Playback.stopped
        split_ifs
        · rfl
        · rfl
    cases op with
    | play start queue => exact hplay start queue hready
    | skip start =>
      change (p.skipBeginning w start).ready ≠ [] at hready
      change (p.skipBeginning w start).playback.identity = p.identity
      unfold skipBeginning at hready ⊢
      split_ifs at hready ⊢
      · exact absurd rfl hready
      · exact p.identity_skippingFrom start
    | resume start points parameters rerun =>
      change (p.resumeBeginning w start points parameters rerun).ready ≠ [] at hready
      change (p.resumeBeginning w start points parameters rerun).playback.identity = p.identity
      unfold resumeBeginning at hready ⊢
      dsimp only at hready ⊢
      split_ifs at hready ⊢
      · exact hplay start true hready
      · exact absurd rfl hready
      · change (p.interrupted w).1.identity = p.identity
        unfold Playback.interrupted
        split_ifs
        · rfl
        · rfl
    | update =>
      change (p.updateBeginning w).ready ≠ [] at hready
      change (p.updateBeginning w).playback.identity = p.identity
      unfold updateBeginning at hready ⊢
      split_ifs at hready ⊢
      · exact absurd rfl hready
      · exact absurd rfl hready
      · exact absurd rfl hready
      · exact absurd rfl hready
      · exact absurd rfl hready
      · rfl
    | _ => exact absurd rfl hready

/-- What is fixed about nodes stays, however far an operation has come. -/
theorem traits_works (h : Node.Fixed trait) (hs : p.skipping = false) {stops : List (Nat × Bool)}
    {u : Turn β} (hu : (p.beginning w op).Works stops u) :
    u.playback.nodes.map trait = p.nodes.map trait := by
  have hturn : u.playback.nodes.map trait = (p.beginning w op).playback.nodes.map trait :=
    (Turn.changes_of_works (straight_beginning hs w op) hu).invariant
      (I := fun u : Turn β =>
        u.playback.nodes.map trait = (p.beginning w op).playback.nodes.map trait) rfl
      fun _ _ hv _ hchange => (hchange.traits h).trans hv
  exact hturn.trans (traits_beginning h.toLasting p w op)

/-- Whatever a playback is asked to do, what is fixed about its nodes stays. -/
theorem traits_perform (h : Node.Fixed trait) (hs : p.skipping = false) {fuel : Nat}
    {r : Playback β × World β} (hr : p.perform fuel w op = some r) :
    r.1.nodes.map trait = p.nodes.map trait := by
  rw [perform_eq] at hr
  obtain ⟨stops, u, hu, rfl, -⟩ := Turn.works_of_run hr
  exact traits_works h hs hu

end Playback

end Cutscene
