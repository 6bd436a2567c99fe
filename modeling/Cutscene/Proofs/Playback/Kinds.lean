import Cutscene.Proofs.Playback.Traits

/-!
# Kinds of nodes

Nodes keep their kind: whatever parameters, runs, skips and choices leave of every behaviour
(`KeepsKind`), a whole course of a playback leaves of every node (`Course.kinds_eq`).
-/

namespace Cutscene

variable {β κ : Type}

/-- Something about a behaviour that no call changes. -/
structure KeepsKind [Behaviour β] (kind : β → κ) : Prop where
  assign : ∀ parameters b, kind (Behaviour.assign parameters b) = kind b
  run : ∀ ctx vars b, kind (Behaviour.run ctx vars b).behaviour = kind b
  skip : ∀ ctx vars b, kind (Behaviour.skip ctx vars b).behaviour = kind b
  choose : ∀ ctx vars b, kind (Behaviour.choose ctx vars b).behaviour = kind b

namespace Playback

/-- The kinds of all nodes that have a behaviour. -/
def kinds (kind : β → κ) (p : Playback β) : List (Option κ) :=
  p.nodes.map fun n => n.behaviour.map kind

theorem kinds_modifyNode {kind : β → κ} {p : Playback β} {index : Nat} {f : Node β → Node β}
    (hf : ∀ n, p.nodes[index]? = some n → (f n).behaviour.map kind = n.behaviour.map kind) :
    (p.modifyNode index f).kinds kind = p.kinds kind := map_modifyNode _ hf

/-- Only calls have to do with what behaviours are like. -/
theorem lasting_kind (kind : β → κ) : Node.Lasting fun n : Node β => n.behaviour.map kind where
  running _ _ := rfl
  memo _ _ := rfl

end Playback

namespace Turn

open Playback

variable {kind : β → κ}

/-! ### One branch -/

theorem kinds_settle (t : Turn β) : t.settle.playback.kinds kind = t.playback.kinds kind := by
  unfold settle
  split_ifs <;> rfl

theorem kinds_follow (t : Turn β) (index : Nat) (ending : Ending) :
    (t.follow index ending).1.playback.kinds kind = t.playback.kinds kind := by
  cases ending with
  | start graph =>
    rw [follow]
    split_ifs <;> rfl
  | _ => rfl

theorem kinds_followAll (t : Turn β) (index : Nat) (endings : List Ending) :
    (t.followAll index endings).1.playback.kinds kind = t.playback.kinds kind := by
  induction endings generalizing t with
  | nil => rfl
  | cons ending rest ih =>
    have hf : (t.follow index ending).1.playback.kinds kind = t.playback.kinds kind :=
      t.kinds_follow index ending
    rw [followAll]
    rcases h : t.follow index ending with ⟨u, _ | b⟩ <;> rw [h] at hf <;> dsimp only
    · exact (ih u).trans hf
    · split_ifs
      · exact (ih _).trans hf
      · exact (ih _).trans hf

theorem kinds_endingAt (t : Turn β) (node : Node β) (output : Int) :
    (t.endingAt node output).1.playback.kinds kind = t.playback.kinds kind := by
  unfold endingAt
  split <;> rfl

theorem kinds_rest (t : Turn β) (index : Nat) :
    (t.rest index).playback.kinds kind = t.playback.kinds kind :=
  kinds_modifyNode fun _ _ => rfl

/-- A call that leaves the kind of the behaviour. -/
theorem kinds_called {t : Turn β} {index : Nat} {node : Node β} {b₀ : β}
    (hn : t.playback.nodes[index]? = some node) (hb : node.behaviour = some b₀) (form : Call.Form)
    (b : β) {o : Outcome β} (ho : kind o.behaviour = kind b₀) (running : Bool) :
    (t.called form index b o running).playback.kinds kind = t.playback.kinds kind := by
  refine kinds_modifyNode fun n hn' => ?_
  obtain rfl := Option.some.inj (hn.symm.trans hn')
  rw [hb]
  exact congrArg some ho

variable [Behaviour β] (hkind : KeepsKind kind)

include hkind

theorem kinds_endings {t : Turn β} {index : Nat} {node : Node β}
    (hn : t.playback.nodes[index]?.bind (·.behaviour) = node.behaviour) :
    (t.endings index node).1.playback.kinds kind = t.playback.kinds kind := by
  unfold endings
  split
  · rfl
  · rename_i b hb
    split_ifs
    · rfl
    · by_cases h : Behaviour.outputs b = 0
      · rw [resolve_of_outputs_eq_zero t index node h]
      · cases hm : t.recalled? node b with
        | some output =>
          -- The choice has been made before, and only the memo of it is used up.
          rw [resolve_of_recalled index h hm]
          exact (kinds_endingAt _ _ _).trans (kinds_modifyNode fun _ _ => rfl)
        | none =>
          rw [resolve_of_choice index h hm]
          refine (kinds_endingAt _ _ _).trans (kinds_modifyNode fun n hn' => ?_)
          -- The node has still got the behaviour that is asked.
          have hsame : n.behaviour = some b := by
            rw [hn', hb] at hn
            exact hn
          rw [hsame]
          exact congrArg some (hkind.choose _ _ _)

theorem kinds_leave {t : Turn β} {index : Nat} {node : Node β}
    (hn : t.playback.nodes[index]?.bind (·.behaviour) = node.behaviour) :
    (t.leave index node).playback.kinds kind = t.playback.kinds kind := by
  have hfollow :
      ((t.endings index node).1.followAll index (t.endings index node).2).1.playback.kinds kind =
        (t.endings index node).1.playback.kinds kind := kinds_followAll _ _ _
  have hsame := hfollow.trans (kinds_endings hkind hn)
  unfold leave
  rcases hf : (t.endings index node).1.followAll index (t.endings index node).2 with ⟨u, _ | _⟩ <;>
    rw [hf] at hsame
  · exact u.kinds_settle.trans hsame
  · exact hsame

theorem kinds_finish (t : Turn β) (index : Nat) :
    (t.finish index).playback.kinds kind = t.playback.kinds kind := by
  cases hn : t.playback.nodes[index]? with
  | none =>
    rw [finish_of_none hn]
    exact t.kinds_settle
  | some node =>
    cases hp : t.playback.pauseRequested with
    | false =>
      rw [finish_of_following hn hp]
      refine (kinds_leave hkind ?_).trans (t.kinds_rest index)
      change ((t.playback.nodes.modify index _)[index]?).bind _ = _
      rw [List.getElem?_modify_eq, hn]
      rfl
    | true =>
      rw [finish_of_pauseRequested hn hp]
      -- Whether the pause takes effect or not, nobody is called.
      split_ifs <;> exact t.kinds_rest index

theorem kind_assigned (t : Turn β) (b : β) : kind (t.assigned b) = kind b := by
  unfold assigned
  split_ifs
  · rfl
  · exact hkind.assign _ _

theorem kinds_enter {t : Turn β} {index : Nat} {node : Node β} {b : β}
    (hn : t.playback.nodes[index]? = some node) (hb : node.behaviour = some b) :
    (t.enter index b).playback.kinds kind = t.playback.kinds kind := by
  cases hs : t.playback.skipping with
  | true =>
    rw [enter_of_skipping hs]
    refine (kinds_finish hkind _ index).trans (kinds_called hn hb _ _ ?_ _)
    exact (hkind.skip _ _ _).trans (kind_assigned hkind t b)
  | false =>
    rw [enter_of_playing hs]
    have hcalled : (t.called .run index (t.assigned b) (t.runOutcome index false (t.assigned b))
        (t.runOutcome index false (t.assigned b)).running).playback.kinds kind =
          t.playback.kinds kind :=
      kinds_called hn hb _ _ ((hkind.run _ _ _).trans (kind_assigned hkind t b)) _
    dsimp only
    split_ifs
    · -- It waits to be called again.
      exact hcalled
    · exact (kinds_finish hkind _ index).trans hcalled

theorem kinds_visit (t : Turn β) (index : Nat) :
    (t.visit index).playback.kinds kind = t.playback.kinds kind := by
  rcases t.hop_cases with ⟨hhop, -, hnodes, -⟩ | ⟨hhop, -, -⟩
  · have hsame : t.hop.1.playback.kinds kind = t.playback.kinds kind := by
      rw [kinds, hnodes]
      rfl
    rw [← hsame]
    cases hn : t.hop.1.playback.nodes[index]? with
    | none =>
      rw [visit_of_none hhop hn]
      exact kinds_settle _
    | some node =>
      cases hr : node.isRunnable with
      | false => rw [visit_of_not_runnable hhop hn (isRunnable_eq_false hr)]; rfl
      | true =>
        obtain ⟨he, hsome⟩ := Bool.and_eq_true_iff.mp hr
        obtain ⟨b, hb⟩ := Option.isSome_iff_exists.mp hsome
        rw [visit_of_runnable hhop hn he hb]
        exact kinds_enter hkind hn hb
  · -- The limit of the skip is exceeded. That kills the playback, and its nodes stay.
    rw [visit_of_killed hhop]
    unfold hop
    dsimp only
    split_ifs
    · exact traits_clearBranches (lasting_kind kind) _
    · rfl
    · rfl

theorem kinds_poll (t : Turn β) (index : Nat) :
    (t.poll index).playback.kinds kind = t.playback.kinds kind := by
  cases hn : t.playback.nodes[index]? with
  | none =>
    rw [poll_of_none hn]
    exact t.kinds_settle
  | some node =>
    cases hb : node.behaviour with
    | none =>
      rw [poll_of_behaviour_none hn hb]
      exact kinds_finish hkind t index
    | some b =>
      rw [poll_of_some hn hb]
      dsimp only
      generalize (if node.running then Call.Form.poll else .run) = form
      have hcalled : (t.called form index b (t.runOutcome index node.running b)
          (t.runOutcome index node.running b).running).playback.kinds kind =
            t.playback.kinds kind :=
        kinds_called hn hb form b (hkind.run _ _ _) _
      split_ifs
      · exact hcalled
      · exact (kinds_finish hkind _ index).trans hcalled

theorem kinds_advance (t : Turn β) (b : Branch) :
    (t.advance b).playback.kinds kind = t.playback.kinds kind := by
  unfold advance
  cases b.step with
  | visit => exact kinds_visit hkind t b.index
  | poll => exact kinds_poll hkind t b.index
  | resolve => exact kinds_finish hkind t b.index

theorem Works.kinds_eq {t u : Turn β} {stops : List (Nat × Bool)} (h : t.Works stops u) :
    u.playback.kinds kind = t.playback.kinds kind := by
  induction h with
  | refl => rfl
  | next _ _ _ ih => exact (kinds_advance hkind _ _).trans ih

end Turn

namespace Playback

open Turn

variable [Behaviour β] {kind : β → κ}

/-! ### A whole course -/

/-- No operation changes the kinds of nodes before a branch is taken up. -/
theorem kinds_beginning (p : Playback β) (w : World β) (op : Operation) :
    (p.beginning w op).playback.kinds kind = p.kinds kind :=
  traits_beginning (lasting_kind kind) p w op

theorem Course.kinds_eq (hkind : KeepsKind kind)
    {allowed : Playback β → World β → Operation → Prop} {s s' : Playback β × World β}
    {stops : List (Nat × Bool)} (h : Course allowed s stops s') :
    s'.1.kinds kind = s.1.kinds kind := by
  induction h with
  | refl => rfl
  | @perform _ _ p w op u _ _ hu _ ih =>
    exact ((hu.kinds_eq hkind).trans (p.kinds_beginning w op)).trans ih
  | elsewhere _ _ ih => exact ih

end Playback

end Cutscene
