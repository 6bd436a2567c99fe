import Cutscene.Proofs.Playback.Reached
import Cutscene.Proofs.Playback.Run

/-!
# What no turn does

A turn leaves the parameters of its playback alone (`Turn.parameters_run`), and no branch that it
lets wait is there to have an ending taken: endings are only taken at once
(`Playback.unresolved_of_reached`).
-/

namespace Cutscene

variable {β : Type}

namespace Turn

open Playback

/-- The parameters are the same, and all branches that have begun to wait will visit a node or go on
with one. -/
structure Keeps (t u : Turn β) : Prop where
  parameters : u.playback.parameters = t.playback.parameters
  waiting : ∀ b ∈ u.playback.pending, b ∈ t.playback.pending ∨ b.step ≠ .resolve

theorem keeps_of_eq {t u : Turn β} (h : u.playback.parameters = t.playback.parameters)
    (hp : u.playback.pending = t.playback.pending) : t.Keeps u :=
  ⟨h, fun _ hb => Or.inl (hp ▸ hb)⟩

theorem keeps_of_pending_eq_nil {t u : Turn β} (h : u.playback.parameters = t.playback.parameters)
    (hp : u.playback.pending = []) : t.Keeps u :=
  ⟨h, fun b hb => absurd (hp ▸ hb : b ∈ []) List.not_mem_nil⟩

theorem Keeps.refl (t : Turn β) : t.Keeps t := keeps_of_eq rfl rfl

theorem Keeps.trans {t u v : Turn β} (h : t.Keeps u) (h' : u.Keeps v) : t.Keeps v where
  parameters := h'.parameters.trans h.parameters
  waiting b hb := (h'.waiting b hb).elim (h.waiting b) Or.inr

theorem keeps_push (t : Turn β) (b : Branch) : t.Keeps (t.push b) := keeps_of_eq rfl rfl

theorem keeps_defer (t : Turn β) {b : Branch} (hb : b.step ≠ .resolve) : t.Keeps (t.defer b) := by
  refine ⟨rfl, fun c hc => ?_⟩
  rcases List.mem_append.mp hc with hc | hc
  · exact Or.inl hc
  · rw [List.mem_singleton.mp hc]
    exact Or.inr hb

theorem keeps_suspend (t : Turn β) (index : Nat) (wait : Float32) :
    t.Keeps (t.suspend index wait) :=
  t.keeps_defer (by simp)

theorem keeps_settle (t : Turn β) : t.Keeps t.settle := by
  unfold settle
  split_ifs
  · exact .refl t
  · exact keeps_of_eq rfl rfl
  · exact keeps_of_pending_eq_nil rfl rfl

theorem keeps_hop (t : Turn β) : t.Keeps t.hop.1 := by
  unfold hop
  dsimp only
  split_ifs
  · exact keeps_of_pending_eq_nil rfl rfl
  · exact keeps_of_eq rfl rfl
  · exact .refl t

theorem keeps_endingAt (t : Turn β) (node : Node β) (output : Int) :
    t.Keeps (t.endingAt node output).1 := by
  unfold endingAt
  split
  · exact .refl t
  · exact keeps_of_eq rfl rfl

theorem keeps_follow (t : Turn β) (index : Nat) (ending : Ending) :
    t.Keeps (t.follow index ending).1 := by
  have hsame := t.sameBranches_follow index ending
  refine keeps_of_eq ?_ hsame.pending
  cases ending <;> simp only [follow]
  split_ifs <;> rfl

theorem keeps_followAll (t : Turn β) (index : Nat) (endings : List Ending) :
    t.Keeps (t.followAll index endings).1 := by
  induction endings generalizing t with
  | nil => exact .refl t
  | cons ending rest ih =>
    have hf := t.keeps_follow index ending
    rw [followAll]
    rcases h : t.follow index ending with ⟨u, _ | b⟩ <;> rw [h] at hf <;> dsimp only
    · exact hf.trans (ih u)
    · have hstep : b.step ≠ .resolve := by simp [(follow_branch h).1]
      split_ifs
      · exact (hf.trans (u.keeps_push b)).trans (ih _)
      · exact (hf.trans (u.keeps_defer hstep)).trans (ih _)

variable [Behaviour β]

omit [Behaviour β] in
theorem keeps_called (t : Turn β) (form : Call.Form) (index : Nat) (b : β) (o : Outcome β)
    (running : Bool) : t.Keeps (t.called form index b o running) := keeps_of_eq rfl rfl

theorem keeps_resolve (t : Turn β) (index : Nat) (node : Node β) (b : β) :
    t.Keeps (t.resolve index node b).1 := by
  by_cases h : Behaviour.outputs b = 0
  · rw [resolve_of_outputs_eq_zero t index node h]
    exact .refl t
  · cases hm : t.recalled? node b with
    | some output =>
      rw [resolve_of_recalled index h hm]
      have hrecalled : t.Keeps (t.recalled index) := keeps_of_eq rfl rfl
      exact hrecalled.trans (keeps_endingAt _ _ _)
    | none =>
      rw [resolve_of_choice index h hm]
      have hchosen : t.Keeps (t.chosen index node b) := keeps_of_eq rfl rfl
      exact hchosen.trans (keeps_endingAt _ _ _)

theorem keeps_endings (t : Turn β) (index : Nat) (node : Node β) :
    t.Keeps (t.endings index node).1 := by
  unfold endings
  split
  · exact .refl t
  · split_ifs
    · exact .refl t
    · exact t.keeps_resolve index node _

theorem keeps_leave (t : Turn β) (index : Nat) (node : Node β) :
    t.Keeps (t.leave index node) := by
  have hkeeps := (t.keeps_endings index node).trans
    (keeps_followAll _ index (t.endings index node).2)
  unfold leave
  rcases hf : (t.endings index node).1.followAll index (t.endings index node).2 with ⟨u, _ | _⟩ <;>
    rw [hf] at hkeeps
  · exact hkeeps.trans u.keeps_settle
  · exact hkeeps

theorem keeps_finish (t : Turn β) (index : Nat) : t.Keeps (t.finish index) := by
  have hrest : t.Keeps (t.rest index) := keeps_of_eq rfl rfl
  cases hn : t.playback.nodes[index]? with
  | none =>
    rw [finish_of_none hn]
    exact t.keeps_settle
  | some node =>
    cases hp : t.playback.pauseRequested with
    | false =>
      rw [finish_of_following hn hp]
      exact hrest.trans (keeps_leave _ index node)
    | true =>
      rw [finish_of_pauseRequested hn hp]
      split_ifs
      · exact keeps_of_eq rfl rfl
      · exact keeps_of_eq rfl rfl

theorem keeps_enter (t : Turn β) (index : Nat) (b : β) : t.Keeps (t.enter index b) := by
  cases hs : t.playback.skipping with
  | true =>
    rw [enter_of_skipping hs]
    exact (t.keeps_called ..).trans (keeps_finish _ index)
  | false =>
    rw [enter_of_playing hs]
    dsimp only
    split_ifs
    · exact (t.keeps_called ..).trans (keeps_suspend ..)
    · exact (t.keeps_called ..).trans (keeps_finish _ index)

theorem keeps_visit (t : Turn β) (index : Nat) : t.Keeps (t.visit index) := by
  refine t.keeps_hop.trans ?_
  cases hhop : t.hop.2 with
  | false =>
    rw [visit_of_killed hhop]
    exact .refl _
  | true =>
    cases hn : t.hop.1.playback.nodes[index]? with
    | none =>
      rw [visit_of_none hhop hn]
      exact keeps_settle _
    | some node =>
      cases he : node.enabled with
      | false =>
        rw [visit_of_not_runnable hhop hn (Or.inl he)]
        exact keeps_push ..
      | true =>
        cases hb : node.behaviour with
        | none =>
          rw [visit_of_not_runnable hhop hn (Or.inr hb)]
          exact keeps_push ..
        | some b =>
          rw [visit_of_runnable hhop hn he hb]
          exact keeps_enter _ index b

theorem keeps_poll (t : Turn β) (index : Nat) : t.Keeps (t.poll index) := by
  cases hn : t.playback.nodes[index]? with
  | none =>
    rw [poll_of_none hn]
    exact t.keeps_settle
  | some node =>
    cases hb : node.behaviour with
    | none =>
      rw [poll_of_behaviour_none hn hb]
      exact t.keeps_finish index
    | some b =>
      rw [poll_of_some hn hb]
      dsimp only
      generalize (if node.running then Call.Form.poll else .run) = form
      split_ifs
      · exact (t.keeps_called ..).trans (keeps_suspend ..)
      · exact (t.keeps_called ..).trans (keeps_finish _ index)

theorem keeps_advance (t : Turn β) (b : Branch) : t.Keeps (t.advance b) := by
  unfold advance
  cases b.step with
  | visit => exact t.keeps_visit b.index
  | poll => exact t.keeps_poll b.index
  | resolve => exact t.keeps_finish b.index

theorem keeps_run {fuel : Nat} {t : Turn β} {r : Playback β × World β} (h : t.run fuel = some r) :
    ∃ u, t.Keeps u ∧ r = u.view := by
  have hstep : ∀ (u : Turn β) (b : Branch) (rest : List Branch), t.Keeps u →
      u.playback.phase = .running → u.ready = b :: rest →
      t.Keeps (({ u with ready := rest } : Turn β).advance b) := by
    intro u b rest hu _ _
    have hsame : u.Keeps { u with ready := rest } := keeps_of_eq rfl rfl
    exact (hu.trans hsame).trans (keeps_advance _ b)
  obtain ⟨u, hu, rfl, -⟩ := run_induction hstep (.refl t) h
  exact ⟨u, hu, rfl⟩

theorem parameters_run {fuel : Nat} {t : Turn β} {r : Playback β × World β}
    (h : t.run fuel = some r) : r.1.parameters = t.playback.parameters := by
  obtain ⟨u, hu, rfl⟩ := keeps_run h
  exact hu.parameters

end Turn

/-! ### What waits between two calls -/

namespace Playback

/-- No branch waits to have an ending taken. -/
def Unresolved (p : Playback β) : Prop := ∀ b ∈ p.pending, b.step ≠ .resolve

variable [Behaviour β]

theorem unresolved_run {fuel : Nat} {t : Turn β} {r : Playback β × World β}
    (ht : t.playback.Unresolved) (h : t.run fuel = some r) : r.1.Unresolved := by
  obtain ⟨u, hu, rfl⟩ := Turn.keeps_run h
  exact fun b hb => (hu.waiting b hb).elim (ht b) fun hstep => hstep

omit [Behaviour β] in
theorem unresolved_of_nil {p : Playback β} (h : p.pending = []) : p.Unresolved :=
  fun b hb => absurd (h ▸ hb : b ∈ []) List.not_mem_nil

omit [Behaviour β] in
theorem Unresolved.mono {p q : Playback β} (h : p.Unresolved)
    (hq : ∀ b ∈ q.pending, b ∈ p.pending) :
    q.Unresolved := fun b hb => h b (hq b hb)

theorem unresolved_play {fuel : Nat} {p : Playback β} {w : World β} {start : Nat} {queue : Bool}
    {r : Playback β × World β} (h : p.play fuel w start queue = some r) : r.1.Unresolved := by
  rw [play_eq] at h
  dsimp only at h
  split_ifs at h
  · obtain rfl := Option.some.inj h
    exact unresolved_of_nil rfl
  · obtain rfl := Option.some.inj h
    intro b hb
    rw [List.mem_singleton.mp hb]
    simp
  · exact unresolved_run (unresolved_of_nil rfl) h

theorem unresolved_resume {fuel : Nat} {p : Playback β} {w : World β} {start : Nat}
    {points : List Nat} {parameters : String} {rerun : Bool} {r : Playback β × World β}
    (h : p.resume fuel w start points parameters rerun = some r) : r.1.Unresolved := by
  by_cases hp : points = []
  · subst hp
    rw [resume_of_nil] at h
    exact unresolved_play h
  · rw [resume_of_ne_nil fuel p w start hp] at h
    dsimp only at h
    split_ifs at h
    · obtain rfl := Option.some.inj h
      exact unresolved_of_nil rfl
    · exact unresolved_run (unresolved_of_nil rfl) h

theorem unresolved_skip {fuel : Nat} {p : Playback β} {w : World β} {start : Nat}
    {r : Playback β × World β} (h : p.skip fuel w start = some r) : r.1.Unresolved := by
  rw [skip_eq] at h
  split_ifs at h
  · obtain rfl := Option.some.inj h
    exact unresolved_of_nil rfl
  · exact unresolved_run (unresolved_of_nil (p.skippingFrom_pending start)) h

theorem Unresolved.pause {p : Playback β} (h : p.Unresolved) (w : World β) :
    (p.pause w).1.Unresolved := by
  unfold Playback.pause
  dsimp only
  split_ifs
  · exact h
  · exact h.mono fun b hb => List.mem_of_mem_filter hb
  · exact h.mono fun b hb => List.mem_of_mem_filter hb

theorem Unresolved.update {fuel : Nat} {p : Playback β} {w : World β} {r : Playback β × World β}
    (h : p.Unresolved) (hr : p.update fuel w = some r) : r.1.Unresolved := by
  -- What is not due yet is some of what waited.
  have hwaiting : (p.waiting w).Unresolved := h.mono fun b hb => List.mem_of_mem_filter hb
  by_cases hidle : p.phase ≠ .running ∨ p.pending = []
  · rw [update_of_nothing_waiting fuel w hidle] at hr
    obtain rfl := Option.some.inj hr
    exact h
  · rw [not_or, not_not] at hidle
    obtain ⟨hrun, hpending⟩ := hidle
    cases hlive : w.registry.isLive p.id with
    | false =>
      rw [update_of_not_isLive fuel hrun hpending hlive] at hr
      obtain rfl := Option.some.inj hr
      -- The record is gone, and nothing waits in a playback that is killed.
      exact unresolved_of_nil rfl
    | true =>
      rw [update_of_isLive fuel hrun hpending hlive] at hr
      split_ifs at hr
      · obtain rfl := Option.some.inj hr
        exact hwaiting
      · obtain rfl := Option.some.inj hr
        exact unresolved_of_nil rfl
      · -- The branches that are due go behind the others, as long as the scene loads.
        obtain rfl := Option.some.inj hr
        intro b hb
        rcases List.mem_append.mp hb with hb | hb
        · exact hwaiting b hb
        · exact h b (List.mem_of_mem_filter hb)
      · exact unresolved_run hwaiting hr

/-- Endings are taken at once: no branch waits for that. -/
theorem unresolved_of_reached {p : Playback β} {w : World β} (h : Reached p w) : p.Unresolved := by
  induction h with
  | new h w => exact unresolved_of_nil h.pending
  | @perform p w h fuel op r hr ih =>
    cases op with
    | play start queue => exact unresolved_play hr
    | skip start => exact unresolved_skip hr
    | pause =>
      obtain rfl := Option.some.inj hr
      exact ih.pause w
    | resume start points parameters rerun => exact unresolved_resume hr
    | kill =>
      obtain rfl := Option.some.inj hr
      exact unresolved_of_nil rfl
    | update => exact ih.update hr
    | reset unqueue =>
      obtain rfl := Option.some.inj hr
      unfold Playback.reset
      split_ifs
      · exact ih
      · exact unresolved_of_nil p.halt_pending
  | elsewhere _ _ ih => exact ih

end Playback

end Cutscene
