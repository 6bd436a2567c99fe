import Cutscene.Proofs.Log
import Cutscene.Proofs.Playback.Run

/-!
# Which behaviours a turn calls

Running a node is one call, and a node that is done may be asked once which output it takes:
`Turn.question?` says whether it is, and `Turn.asked` whether that happens at all while a pause may
be asked for. By `calls_finish` nothing else is called on the way from a node to the next.
-/

namespace Cutscene.Turn

variable {β : Type} [Behaviour β] (t : Turn β)

omit [Behaviour β] in
/-- A call as the journal notes it. -/
def call (form : Call.Form) (index : Nat) (b : β) : Call β :=
  ⟨form, t.playback.id, t.playback.graph, index, t.playback.skipping, b⟩

/-- The question which output it takes, if a node is asked. It is not if it takes all its outputs or
has none, nor if a skip takes the output that was taken before. -/
def question? (index : Nat) (node : Node β) : Option (Call β) :=
  match node.behaviour with
  | none => none
  | some b =>
    if Behaviour.fansOut b && 0 < Behaviour.outputs b then none
    else if Behaviour.outputs b = 0 then none
    else match t.recalled? node b with
      | some _ => none
      | none => some (t.call .choose index b)

/-- What is asked once a node is done. -/
def asked (index : Nat) : List (Call β) :=
  if t.playback.pauseRequested then []
  else (t.playback.nodes[index]?.bind (t.question? index)).toList

theorem form_of_mem_asked {index : Nat} {c : Call β} (h : c ∈ t.asked index) :
    c.form = .choose := by
  unfold asked at h
  split_ifs at h with hp
  · exact absurd h List.not_mem_nil
  · rw [Option.mem_toList, Option.bind_eq_some_iff] at h
    obtain ⟨node, -, hq⟩ := h
    unfold question? at hq
    split at hq
    · simp at hq
    · split_ifs at hq
      split at hq
      · simp at hq
      · rw [← Option.some.inj hq]
        rfl

omit [Behaviour β] in
theorem calls_called (form : Call.Form) (index : Nat) (b : β) (o : Outcome β) (running : Bool) :
    (t.called form index b o running).world.calls = t.world.calls ++ [t.call form index b] :=
  (World.calls_absorb _ o).trans (World.calls_note_call _ _)

theorem calls_ran (index : Nat) (running : Bool) (b : β) :
    (t.ran index running b).world.calls =
      t.world.calls ++ [t.call (if running then .poll else .run) index b] :=
  t.calls_called _ _ _ _ _

/-- The outcome of the call, as far as the call tells. -/
theorem isOf_runOutcome (index : Nat) (running : Bool) (b : β) :
    (t.runOutcome index running b).IsOf (t.call (if running then .poll else .run) index b) := by
  refine ⟨?_, t.context index running, t.world.vars, rfl, rfl, rfl, rfl, ?_, rfl⟩
  · cases running
    · exact Or.inl rfl
    · exact Or.inr rfl
  · cases running <;> simp [call, context]

omit [Behaviour β] in
theorem calls_endingAt (node : Node β) (output : Int) :
    (t.endingAt node output).1.world.calls = t.world.calls := by
  unfold endingAt
  split
  · rfl
  · exact World.calls_notice _ _

theorem calls_endings (index : Nat) (node : Node β) :
    (t.endings index node).1.world.calls = t.world.calls ++ (t.question? index node).toList := by
  unfold endings question?
  cases hb : node.behaviour with
  | none => exact (List.append_nil _).symm
  | some b =>
    dsimp only
    split_ifs with hfan hnone
    · exact (List.append_nil _).symm
    · rw [resolve_of_outputs_eq_zero t index node hnone]
      exact (List.append_nil _).symm
    · cases hm : t.recalled? node b with
      | some output =>
        rw [resolve_of_recalled index hnone hm]
        exact (calls_endingAt _ node output).trans (List.append_nil _).symm
      | none =>
        rw [resolve_of_choice index hnone hm]
        refine (calls_endingAt _ node _).trans ?_
        exact (World.calls_absorbChoice _ (t.choice index b)).trans (World.calls_note_call _ _)

omit [Behaviour β] in
theorem calls_follow (index : Nat) (ending : Ending) :
    (t.follow index ending).1.world.calls = t.world.calls := by
  cases ending with
  | start graph =>
    unfold follow
    dsimp only
    split_ifs <;> rfl
  | _ => rfl

omit [Behaviour β] in
theorem calls_followAll (index : Nat) (endings : List Ending) :
    (t.followAll index endings).1.world.calls = t.world.calls := by
  induction endings generalizing t with
  | nil => rfl
  | cons ending rest ih =>
    have hf := t.calls_follow index ending
    rw [followAll]
    rcases h : t.follow index ending with ⟨u, _ | b⟩ <;> rw [h] at hf <;> dsimp only
    · exact (ih u).trans hf
    · split_ifs
      · exact (ih (u.push b)).trans hf
      · exact (ih (u.defer b)).trans hf

omit [Behaviour β] in
theorem calls_endRun : t.endRun.world.calls = t.world.calls := by
  unfold endRun
  dsimp only
  split
  · exact (World.calls_emit _ _ _).trans (World.calls_emit _ _ _)
  · exact World.calls_emit _ _ _

omit [Behaviour β] in
theorem commands_endRun : t.endRun.world.commands = t.world.commands := by
  unfold endRun
  dsimp only
  split <;> rfl

omit [Behaviour β] in
theorem calls_endPause : t.endPause.world.calls = t.world.calls := World.calls_emit _ _ _

omit [Behaviour β] in
theorem calls_settle : t.settle.world.calls = t.world.calls := by
  unfold settle
  split_ifs
  · rfl
  · exact t.calls_endPause
  · exact t.calls_endRun

theorem calls_leave (index : Nat) (node : Node β) :
    (t.leave index node).world.calls = t.world.calls ++ (t.question? index node).toList := by
  have hcalls :=
    (calls_followAll _ index (t.endings index node).2).trans (t.calls_endings index node)
  unfold leave
  rcases hf : (t.endings index node).1.followAll index (t.endings index node).2 with ⟨u, _ | _⟩ <;>
    rw [hf] at hcalls
  · exact u.calls_settle.trans hcalls
  · exact hcalls

/-- Once a node is done it is asked at most which output it takes. -/
theorem calls_finish (index : Nat) :
    (t.finish index).world.calls = t.world.calls ++ t.asked index := by
  unfold asked
  cases hn : t.playback.nodes[index]? with
  | none =>
    rw [finish_of_none hn, t.calls_settle]
    split_ifs <;> exact (List.append_nil _).symm
  | some node =>
    cases hp : t.playback.pauseRequested with
    | true =>
      rw [finish_of_pauseRequested hn hp, if_pos rfl, List.append_nil]
      split_ifs
      · exact calls_endPause _
      · rfl
    | false =>
      rw [finish_of_following hn hp, if_neg Bool.false_ne_true]
      -- Whether the node is marked as running does not matter to the question.
      exact calls_leave (t.rest index) index node

end Cutscene.Turn
