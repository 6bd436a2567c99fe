import Cutscene.Proofs.Playback.Calls
import Cutscene.Proofs.Playback.Course

/-!
# Commands that a playback raises

Whatever is done with a playback, commands that were raised before still wait, in their order, and
those that it raises wait behind them (`Playback.raises_perform`): none is taken before the engine
takes it. Nothing is asked of the playback, which may be in any state, so the functions of a turn
are gone through one by one.
-/

namespace Cutscene

variable {β : Type}

/-- The commands of an earlier world still wait in a later one, and what was raised meanwhile waits
behind them. -/
def World.Raises (w w' : World β) : Prop := w.commands <+: w'.commands

namespace World

variable {w w' w'' : World β}

theorem Raises.of_eq (h : w'.commands = w.commands) : w.Raises w' :=
  ⟨[], (List.append_nil _).trans h.symm⟩

theorem Raises.refl (w : World β) : w.Raises w := .of_eq rfl

theorem Raises.trans (h : w.Raises w') (h' : w'.Raises w'') : w.Raises w'' :=
  List.IsPrefix.trans h h'

theorem raises_raise (w : World β) (command : Command) : w.Raises (w.raise command) :=
  List.prefix_append _ _

theorem raises_noticeAll (w : World β) (notices : List Notice) : w.Raises (w.noticeAll notices) :=
  .of_eq (w.commands_noticeAll notices)

theorem raises_absorb (w : World β) (o : Outcome β) : w.Raises (w.absorb o) := by
  unfold Raises
  rw [commands_absorb]
  exact List.prefix_append _ _

theorem raises_absorbChoice (w : World β) (c : Choice β) : w.Raises (w.absorbChoice c) :=
  .of_eq (commands_noticeAll _ _)

theorem raises_kill (p : Playback β) (w : World β) : w.Raises (p.kill w).2 := by
  unfold Playback.kill
  dsimp only
  split_ifs <;> exact .of_eq rfl

end World

/-! ### Turns -/

namespace Turn

open World

variable (t : Turn β)

theorem raises_called (form : Call.Form) (index : Nat) (b : β) (o : Outcome β) (running : Bool) :
    t.world.Raises (t.called form index b o running).world :=
  raises_absorb (t.noteCall form index b).world o

theorem raises_follow (index : Nat) (ending : Ending) :
    t.world.Raises (t.follow index ending).1.world := by
  cases ending with
  | start graph =>
    by_cases hg : graph = t.playback.graph
    · simp only [follow, hg, if_true]
      exact .refl _
    · simp only [follow, hg, if_false]
      exact t.world.raises_raise _
  | _ => exact .refl _

theorem raises_followAll (index : Nat) (endings : List Ending) :
    t.world.Raises (t.followAll index endings).1.world := by
  induction endings generalizing t with
  | nil => exact .refl _
  | cons ending rest ih =>
    have hfollow := t.raises_follow index ending
    rw [followAll]
    rcases h : t.follow index ending with ⟨u, _ | b⟩ <;> rw [h] at hfollow <;> dsimp only
    · exact hfollow.trans (ih u)
    · split_ifs
      · exact hfollow.trans (ih (u.push b))
      · exact hfollow.trans (ih (u.defer b))

theorem raises_endingAt (node : Node β) (output : Int) :
    t.world.Raises (t.endingAt node output).1.world := by
  unfold endingAt
  split
  · exact .refl _
  · exact t.world.raises_noticeAll [.outputOutOfRange]

theorem raises_settle : t.world.Raises t.settle.world := by
  unfold settle
  split_ifs
  · exact .refl _
  · exact .of_eq rfl
  · exact .of_eq t.commands_endRun

theorem raises_hop : t.world.Raises t.hop.1.world := by
  unfold hop
  dsimp only
  split_ifs
  · exact (t.world.raises_noticeAll [.hopLimitExceeded]).trans (raises_kill _ _)
  · exact .refl _
  · exact .refl _

variable [Behaviour β]

theorem raises_resolve (index : Nat) (node : Node β) (b : β) :
    t.world.Raises (t.resolve index node b).1.world := by
  by_cases h : Behaviour.outputs b = 0
  · rw [resolve_of_outputs_eq_zero t index node h]
    exact .refl _
  · cases hm : t.recalled? node b with
    | some output =>
      rw [resolve_of_recalled index h hm]
      exact (t.recalled index).raises_endingAt node output
    | none =>
      have hasked := (t.noteCall .choose index b).world.raises_absorbChoice (t.choice index b)
      rw [resolve_of_choice index h hm]
      exact hasked.trans ((t.chosen index node b).raises_endingAt node _)

theorem raises_endings (index : Nat) (node : Node β) :
    t.world.Raises (t.endings index node).1.world := by
  unfold endings
  split
  · exact .refl _
  · split_ifs
    · exact .refl _
    · exact t.raises_resolve index node _

theorem raises_leave (index : Nat) (node : Node β) :
    t.world.Raises (t.leave index node).world := by
  have hfollowed := (t.raises_endings index node).trans
    (raises_followAll _ index (t.endings index node).2)
  unfold leave
  rcases h : (t.endings index node).1.followAll index (t.endings index node).2 with ⟨u, _ | _⟩ <;>
    rw [h] at hfollowed
  · exact hfollowed.trans u.raises_settle
  · exact hfollowed

theorem raises_finish (index : Nat) : t.world.Raises (t.finish index).world := by
  cases hn : t.playback.nodes[index]? with
  | none =>
    rw [finish_of_none hn]
    exact t.raises_settle
  | some node =>
    cases hp : t.playback.pauseRequested with
    | false =>
      rw [finish_of_following hn hp]
      exact (t.rest index).raises_leave index node
    | true =>
      rw [finish_of_pauseRequested hn hp]
      split_ifs <;> exact .of_eq rfl

theorem raises_enter (index : Nat) (b : β) : t.world.Raises (t.enter index b).world := by
  cases hs : t.playback.skipping with
  | true =>
    rw [enter_of_skipping hs]
    exact (t.raises_called ..).trans (raises_finish _ index)
  | false =>
    rw [enter_of_playing hs]
    have hcalled := t.raises_called .run index (t.assigned b)
      (t.runOutcome index false (t.assigned b)) (t.runOutcome index false (t.assigned b)).running
    dsimp only
    split_ifs
    · exact hcalled
    · exact hcalled.trans (raises_finish _ index)

theorem raises_visit (index : Nat) : t.world.Raises (t.visit index).world := by
  cases hhop : t.hop.2 with
  | false =>
    -- A skip that is killed raises nothing.
    rw [visit_of_killed hhop]
    exact t.raises_hop
  | true =>
    refine t.raises_hop.trans ?_
    cases hn : t.hop.1.playback.nodes[index]? with
    | none =>
      rw [visit_of_none hhop hn]
      exact raises_settle _
    | some node =>
      cases hr : node.isRunnable with
      | false =>
        rw [visit_of_not_runnable hhop hn (isRunnable_eq_false hr)]
        -- A node that is passed over raises nothing.
        exact .refl _
      | true =>
        obtain ⟨he, hsome⟩ := Bool.and_eq_true_iff.mp hr
        obtain ⟨b, hb⟩ := Option.isSome_iff_exists.mp hsome
        rw [visit_of_runnable hhop hn he hb]
        exact raises_enter _ index b

theorem raises_poll (index : Nat) : t.world.Raises (t.poll index).world := by
  cases hn : t.playback.nodes[index]? with
  | none =>
    rw [poll_of_none hn]
    exact t.raises_settle
  | some node =>
    cases hb : node.behaviour with
    | none =>
      rw [poll_of_behaviour_none hn hb]
      exact t.raises_finish index
    | some b =>
      rw [poll_of_some hn hb]
      dsimp only
      -- How the call is noted does not matter.
      generalize (if node.running then Call.Form.poll else .run) = form
      have hcalled := t.raises_called form index b (t.runOutcome index node.running b)
        (t.runOutcome index node.running b).running
      split_ifs
      · exact hcalled
      · exact hcalled.trans (raises_finish _ index)

theorem raises_advance (b : Branch) : t.world.Raises (t.advance b).world := by
  unfold advance
  cases b.step with
  | visit => exact t.raises_visit b.index
  | poll => exact t.raises_poll b.index
  | resolve => exact t.raises_finish b.index

theorem raises_run {fuel : Nat} {t : Turn β} {r : Playback β × World β}
    (h : t.run fuel = some r) : t.world.Raises r.2 := by
  obtain ⟨u, hu, rfl, -⟩ := run_induction (I := fun u : Turn β => t.world.Raises u.world)
    (fun u b rest hu _ _ => hu.trans (raises_advance { u with ready := rest } b)) (.refl _) h
  exact hu

end Turn

/-! ### Operations -/

namespace Playback

open World

theorem raises_stopped (p : Playback β) (w : World β) : w.Raises (p.stopped w).2 := by
  unfold stopped
  split_ifs
  · exact raises_kill p w
  · exact .refl w

theorem raises_playBeginning (p : Playback β) (w : World β) (start : Nat) (queue : Bool) :
    w.Raises (p.playBeginning w start queue).world := by
  unfold playBeginning
  dsimp only
  split_ifs
  · exact (p.raises_stopped w).trans (raises_kill _ _)
  · exact p.raises_stopped w
  · exact p.raises_stopped w

theorem raises_skipBeginning (p : Playback β) (w : World β) (start : Nat) :
    w.Raises (p.skipBeginning w start).world := by
  unfold skipBeginning
  split_ifs with hlast
  · exact raises_kill p w
  · unfold skipTurn
    dsimp only
    split_ifs <;> exact .of_eq rfl

theorem raises_resumeTurn (p : Playback β) (w : World β) (start : Nat) (points : List Nat)
    (parameters : String) (rerun : Bool) :
    w.Raises (p.resumeTurn w start points parameters rerun).world := by
  let p' := p.revived start (p.restored parameters).1
  let w' := p'.entered (w.noticeAll (p.restored parameters).2) p.isSkippable
  have hentered : w.Raises w' := w.raises_noticeAll (p.restored parameters).2
  exact hentered.trans ((p'.emit .resumed w').raises_noticeAll _)

theorem raises_resumeBeginning (p : Playback β) (w : World β) (start : Nat) (points : List Nat)
    (parameters : String) (rerun : Bool) :
    w.Raises (p.resumeBeginning w start points parameters rerun).world := by
  have hinterrupted : w.Raises (p.interrupted w).2 := by
    unfold interrupted
    split_ifs
    · exact (w.raises_noticeAll [.resumedWhileRunning]).trans (raises_kill p _)
    · exact .refl w
  have hresumed := hinterrupted.trans
    (raises_resumeTurn (p.interrupted w).1 (p.interrupted w).2 start points parameters rerun)
  unfold resumeBeginning
  dsimp only
  split_ifs
  · exact p.raises_playBeginning w start true
  · exact hresumed.trans (.of_eq (Turn.commands_endRun _))
  · exact hresumed

theorem raises_updateBeginning (p : Playback β) (w : World β) :
    w.Raises (p.updateBeginning w).world := by
  unfold updateBeginning
  split_ifs
  · exact .refl w
  · exact w.raises_noticeAll [.unregistered]
  · exact .refl w
  · exact raises_kill (p.waiting w) w
  · exact .refl w
  · exact .refl w

variable [Behaviour β]

theorem raises_beginning (p : Playback β) (w : World β) (op : Operation) :
    w.Raises (p.beginning w op).world := by
  cases op with
  | play start queue => exact p.raises_playBeginning w start queue
  | skip start => exact p.raises_skipBeginning w start
  | pause =>
    change w.Raises (p.pause w).2
    unfold pause
    dsimp only
    split_ifs <;> exact .of_eq rfl
  | resume start points parameters rerun =>
    exact p.raises_resumeBeginning w start points parameters rerun
  | kill => exact raises_kill p w
  | update => exact p.raises_updateBeginning w
  | reset unqueue =>
    change w.Raises (p.reset w unqueue).2
    unfold reset
    split_ifs <;> exact .of_eq rfl

/-- An operation on a playback takes no command, and raises commands behind those that wait. -/
theorem raises_perform {fuel : Nat} {p : Playback β} {w : World β} {op : Operation}
    {r : Playback β × World β} (hr : p.perform fuel w op = some r) : w.Raises r.2 := by
  rw [perform_eq] at hr
  exact (p.raises_beginning w op).trans (Turn.raises_run hr)

end Playback

end Cutscene
