import Cutscene.Proofs.Playback.Level
import Cutscene.Proofs.Playback.Sound

/-!
# Every node that is done is asked once

As long as nodes take one output at a time a run has one branch, and between two calls of a node the
branch does nothing else. `Turn.askedOnce_run` says what a turn of such a run calls: a node that is
done is asked which output it takes right after it has run (`AskedOnce`), and at no other time.
-/

namespace Cutscene

variable {β : Type} [Behaviour β]

/-- The question that follows a call after which the node is done, unless it has no outputs. -/
def Call.question? (c : Call β) (o : Outcome β) : Option (Call β) :=
  if Behaviour.outputs o.behaviour = 0 then none
  else some { c with form := .choose, behaviour := o.behaviour }

/-- Each run of a node that is done is followed by the question which output is taken, and there are
no other questions. At its first call a node that wants to go on is done all the same if it asks for
no time. -/
inductive AskedOnce : List (Call β) → Prop
  | nil : AskedOnce []
  | suspended {c : Call β} {rest : List (Call β)} {o : Outcome β} (ho : o.IsOf c)
    (hgo : o.running = true) (h : AskedOnce rest) : AskedOnce (c :: rest)
  | completed {c : Call β} {rest : List (Call β)} {o : Outcome β} (ho : o.IsOf c)
    (hdone : o.running = true → c.form = .run ∧ (o.wait != 0) = false) (h : AskedOnce rest) :
    AskedOnce (c :: ((c.question? o).toList ++ rest))

theorem AskedOnce.append {calls calls' : List (Call β)} (h : AskedOnce calls)
    (h' : AskedOnce calls') : AskedOnce (calls ++ calls') := by
  induction h with
  | nil => exact h'
  | suspended ho hgo _ ih => exact .suspended ho hgo ih
  | completed ho hdone _ ih =>
    rw [List.cons_append, List.append_assoc]
    exact .completed ho hdone ih

namespace Turn

open Playback

variable {S : β → Prop}

/-! ### One branch at a time -/

omit [Behaviour β] in
/-- At most one branch is under way, and it is not there to have an ending taken. -/
structure Solitary (t : Turn β) : Prop where
  single : t.inFlight.length ≤ 1
  unresolved : ∀ b ∈ t.inFlight, b.step ≠ .resolve

omit [Behaviour β] in
theorem solitary_nil {t : Turn β} (h : t.inFlight = []) : t.Solitary := by
  refine ⟨?_, fun b hb => ?_⟩
  · rw [h]
    exact Nat.zero_le 1
  · rw [h] at hb
    exact absurd hb List.not_mem_nil

omit [Behaviour β] in
theorem solitary_singleton {t : Turn β} {b : Branch} (h : t.inFlight = [b])
    (hb : b.step ≠ .resolve) :
    t.Solitary := by
  refine ⟨?_, fun c hc => ?_⟩
  · rw [h]
    exact Nat.le_refl 1
  · rw [h] at hc
    rw [List.mem_singleton.mp hc]
    exact hb

omit [Behaviour β] in
theorem inFlight_push {t : Turn β} (h : t.inFlight = []) (b : Branch) :
    (t.push b).inFlight = [b] := by
  obtain ⟨hr, hp⟩ := List.append_eq_nil_iff.mp h
  simp only [inFlight, push, hr, hp, List.nil_append, List.append_nil]

omit [Behaviour β] in
theorem inFlight_defer {t : Turn β} (h : t.inFlight = []) (b : Branch) :
    (t.defer b).inFlight = [b] := by
  obtain ⟨hr, hp⟩ := List.append_eq_nil_iff.mp h
  simp only [inFlight, defer, hr, hp, List.nil_append]

omit [Behaviour β] in
theorem inFlight_settle {t : Turn β} (h : t.inFlight = []) : t.settle.inFlight = [] := by
  obtain ⟨hr, hp⟩ := List.append_eq_nil_iff.mp h
  unfold settle
  split_ifs
  · exact h
  · exact h
  · exact List.append_eq_nil_iff.mpr ⟨hr, rfl⟩

omit [Behaviour β] in
theorem inFlight_of_sameBranches {t u : Turn β} (h : t.SameBranches u) :
    u.inFlight = t.inFlight := by
  rw [inFlight, inFlight, h.ready, h.pending]

omit [Behaviour β] in
theorem solitary_followAll {t : Turn β} (h : t.inFlight = []) (index : Nat) (ending : Ending) :
    (t.followAll index [ending]).1.Solitary ∧
      ((t.followAll index [ending]).2 = false → (t.followAll index [ending]).1.inFlight = []) := by
  have hsame := t.sameBranches_follow index ending
  unfold followAll
  rcases hf : t.follow index ending with ⟨u, _ | b⟩ <;> rw [hf] at hsame <;>
    dsimp only [followAll] at hsame ⊢
  · -- The ending leads nowhere.
    have hnil := (inFlight_of_sameBranches hsame).trans h
    exact ⟨solitary_nil hnil, fun _ => hnil⟩
  · have hnil := (inFlight_of_sameBranches hsame).trans h
    have hstep := (follow_branch hf).1
    refine ⟨?_, fun hfalse => by simp at hfalse⟩
    -- Whether it is taken up at once or waits, the branch is the only one.
    split_ifs
    · exact solitary_singleton (inFlight_push hnil b) (by simp [hstep])
    · exact solitary_singleton (inFlight_defer hnil b) (by simp [hstep])

theorem endings_eq_singleton (t : Turn β) (index : Nat) {node : Node β}
    (hnode : ∀ b, node.behaviour = some b → Behaviour.fansOut b = false) :
    ∃ ending, (t.endings index node).2 = [ending] := by
  unfold endings
  cases hb : node.behaviour with
  | none => exact ⟨_, rfl⟩
  | some b =>
    dsimp only
    rw [hnode b hb, Bool.false_and, if_neg Bool.false_ne_true]
    exact ⟨_, rfl⟩

/-- A node that is done leads on by one branch at most. -/
theorem solitary_finish {t : Turn β} (h : t.inFlight = []) (hp : t.playback.pauseRequested = false)
    (hnodes : ∀ n ∈ t.playback.nodes, ∀ b, n.behaviour = some b → Behaviour.fansOut b = false)
    (index : Nat) : (t.finish index).Solitary := by
  cases hn : t.playback.nodes[index]? with
  | none =>
    rw [finish_of_none hn]
    exact solitary_nil (inFlight_settle h)
  | some node =>
    obtain ⟨ending, hending⟩ :=
      (t.rest index).endings_eq_singleton index (hnodes node (List.mem_of_getElem? hn))
    have hsame := (t.rest index).sameBranches_endings index node
    have hnil : ((t.rest index).endings index node).1.inFlight = [] :=
      (inFlight_of_sameBranches hsame).trans h
    obtain ⟨hsolitary, hnone⟩ := solitary_followAll hnil index ending
    rw [finish_of_following hn hp, leave, hending]
    rcases hf : ((t.rest index).endings index node).1.followAll index [ending] with ⟨u, _ | _⟩ <;>
      rw [hf] at hsolitary hnone <;> dsimp only at hsolitary hnone ⊢
    · -- The run may end here.
      exact solitary_nil (inFlight_settle (hnone rfl))
    · exact hsolitary

/-! ### One branch -/

omit [Behaviour β] in
/-- A turn of a playback that neither skips nor has been asked to pause, and whose nodes mind
nothing but themselves. -/
structure Plain (S : β → Prop) (t : Turn β) : Prop where
  level : t.playback.Level false t.playback
  behaves : t.playback.Behaves S

theorem Plain.advance (hS : Secluded S) {t : Turn β} (h : t.Plain S)
    (hrun : t.playback.phase = .running) (b : Branch) : (t.advance b).Plain S := by
  have hself : InStep false S t.world t.world [] t t := .of_level h.level h.behaves rfl _ _
  obtain ⟨more, hmore⟩ := hself.advance hS hrun (b := b) rfl
  exact ⟨.refl hmore.level.notSkipping hmore.level.unpaused hmore.level.unasked, hmore.behaves⟩

theorem secluded_of_runs (hS : Secluded S) {t : Turn β} (h : t.playback.Behaves S) {b : Branch}
    {node : Node β} (hn : t.playback.nodes[b.index]? = some node) {running : Bool} {behaviour : β}
    (hr : t.Runs b node running behaviour) : S behaviour := by
  have hnode := h node (List.mem_of_getElem? hn)
  cases hr with
  | arrives _ _ hb => exact secluded_assigned hS t (hnode _ hb)
  | continues _ hb => exact hnode _ hb

theorem Plain.ran (hS : Secluded S) {t : Turn β} (h : t.Plain S) (index : Nat) (running : Bool)
    {b : β} (hb : S b) : (t.ran index running b).Plain S := by
  have hself : InStep false S t.world t.world [] t t := .of_level h.level h.behaves rfl _ _
  have hran := (hself.ran hS index running hb).1
  exact ⟨.refl hran.level.notSkipping hran.level.unpaused hran.level.unasked, hran.behaves⟩

/-- The question to a node that has just run. -/
theorem asked_ran (hS : Secluded S) {t : Turn β} (h : t.Plain S)
    (hrun : t.playback.phase = .running) {index : Nat} {node : Node β}
    (hn : t.playback.nodes[index]? = some node) (running : Bool) {b : β} (hb : S b) :
    (t.ran index running b).asked index =
      ((t.call (if running then .poll else .run) index b).question?
        (t.runOutcome index running b)).toList := by
  have hunasked : (t.ran index running b).playback.pauseRequested = false := h.level.unasked hrun
  have hfan := hS.fansOut (hS.run hb (t.context index running) t.world.vars)
  -- Without skipping no memo is used.
  have hmemo : ∀ (n : Node β) (c : β), (t.ran index running b).recalled? n c = none := by
    intro n c
    have hskip : (t.ran index running b).playback.skipping = false := h.level.notSkipping
    simp [recalled?, hskip]
  unfold asked
  rw [hunasked, if_neg Bool.false_ne_true, getElem?_ran hn, Option.bind_some]
  unfold question? Call.question?
  dsimp only
  rw [runOutcome, hfan, Bool.false_and, if_neg Bool.false_ne_true]
  by_cases hnone :
      Behaviour.outputs (Behaviour.run (t.context index running) t.world.vars b).behaviour = 0
  · rw [if_pos hnone, if_pos hnone]
  · rw [if_neg hnone, if_neg hnone, hmemo]
    rfl

/-- What a branch calls that is taken up alone, and what it leaves. -/
theorem askedOnce_advance (hS : Secluded S) {t : Turn β} (h : t.Plain S)
    (hrun : t.playback.phase = .running) (hnil : t.inFlight = []) (b : Branch) :
    (t.advance b).Solitary ∧ ∃ calls, (t.advance b).world.calls = t.world.calls ++ calls ∧
      (b.step ≠ .resolve → AskedOnce calls) ∧ (b.step = .resolve → calls = t.asked b.index) := by
  have hunasked := h.level.unasked hrun
  have hfan : ∀ u : Turn β, u.playback.Behaves S →
      ∀ n ∈ u.playback.nodes, ∀ b, n.behaviour = some b → Behaviour.fansOut b = false :=
    fun u hu n hn b hb => hS.fansOut (hu n hn b hb)
  have htaken := taken_advance h.level.notSkipping b
  have hplain := h.advance hS hrun b
  generalize t.advance b = u at htaken hplain ⊢
  cases htaken with
  -- Nobody is called where there is no node.
  | lost hn =>
    refine ⟨solitary_nil (inFlight_settle hnil), [], ?_, fun _ => .nil, fun _ => ?_⟩
    · rw [calls_settle, List.append_nil]
    · unfold asked
      rw [hn]
      split_ifs <;> rfl
  -- Nobody is called at a node that is passed over.
  | passed hb hn hr =>
    refine ⟨solitary_singleton (inFlight_push hnil _) (by simp), [], ?_, fun _ => .nil,
      fun hres => ?_⟩
    · exact (List.append_nil _).symm
    · simp [hb] at hres
  -- The node has been called and waits, so it is not asked yet.
  | @suspended node running behaviour hn hr ho =>
    refine ⟨solitary_singleton (inFlight_defer hnil _) (by simp), _,
      t.calls_ran b.index running behaviour, fun _ => ?_, fun hres => ?_⟩
    · exact .suspended (t.isOf_runOutcome b.index running behaviour) ho .nil
    · cases hr <;> simp_all
  -- The node has been called and is done. It is asked right after that.
  | @completed node running behaviour hn hr ho =>
    have hb := secluded_of_runs hS h.behaves hn hr
    have hran := h.ran hS b.index running hb
    refine ⟨solitary_finish (t := t.ran b.index running behaviour) hnil hunasked
        (hfan _ hran.behaves) b.index,
      t.call (if running then .poll else .run) b.index behaviour ::
        (((t.call (if running then .poll else .run) b.index behaviour).question?
          (t.runOutcome b.index running behaviour)).toList ++ []), ?_, fun _ => ?_, fun hres => ?_⟩
    · rw [calls_finish, calls_ran, asked_ran hS h hrun hn running hb, List.append_assoc,
        List.append_nil]
      rfl
    · refine .completed (t.isOf_runOutcome b.index running behaviour) (fun hgo => ?_) .nil
      obtain ⟨rfl, hwait⟩ := ho hgo
      exact ⟨rfl, hwait⟩
    · cases hr <;> simp_all
  -- The node has been recorded before, or it has lost its behaviour.
  | @resolved node hn hb =>
    refine ⟨solitary_finish hnil hunasked (hfan t h.behaves) b.index, _, t.calls_finish b.index,
      fun hvisit => ?_, fun _ => rfl⟩
    obtain ⟨-, hnone⟩ := hb.resolve_left hvisit
    -- Without a behaviour there is nobody to be asked.
    have hasked : t.asked b.index = [] := by
      unfold asked question?
      rw [hunasked, if_neg Bool.false_ne_true, hn, Option.bind_some, hnone]
      rfl
    rw [hasked]
    exact .nil

/-! ### A whole turn -/

/-- What a turn with one branch calls, and what it leaves. -/
structure RunsAlone (S : β → Prop) (w : World β) (r : Playback β × World β) : Prop where
  level : r.1.Level false r.1
  behaves : r.1.Behaves S
  single : r.1.pending.length ≤ 1
  unresolved : ∀ b ∈ r.1.pending, b.step ≠ .resolve
  asked : ∃ calls, AskedOnce calls ∧ r.2.calls = w.calls ++ calls

/-- A turn with one branch, so far. -/
structure GoesAlone (S : β → Prop) (w : World β) (t : Turn β) : Prop where
  plain : t.Plain S
  solitary : t.Solitary
  asked : ∃ calls, AskedOnce calls ∧ t.world.calls = w.calls ++ calls

omit [Behaviour β] in
/-- The branch that is taken up is the only one. -/
theorem Solitary.next {t : Turn β} (h : t.Solitary) {b : Branch} {rest : List Branch}
    (hready : t.ready = b :: rest) :
    ({ t with ready := rest } : Turn β).inFlight = [] ∧ b.step ≠ .resolve := by
  have hflight : t.inFlight = b :: ({ t with ready := rest } : Turn β).inFlight := by
    rw [inFlight, hready]
    rfl
  have hsingle := h.single
  rw [hflight, List.length_cons] at hsingle
  refine ⟨List.eq_nil_of_length_eq_zero (by omega), h.unresolved b ?_⟩
  rw [hflight]
  exact List.mem_cons_self

theorem GoesAlone.next (hS : Secluded S) {w : World β} {t : Turn β} (h : t.GoesAlone S w)
    {b : Branch} {rest : List Branch} (hrun : t.playback.phase = .running)
    (hready : t.ready = b :: rest) :
    (({ t with ready := rest } : Turn β).advance b).GoesAlone S w := by
  obtain ⟨calls, hasked, hcalls⟩ := h.asked
  obtain ⟨hnil, hstep⟩ := h.solitary.next hready
  have hplain : ({ t with ready := rest } : Turn β).Plain S := ⟨h.plain.level, h.plain.behaves⟩
  obtain ⟨hnext, more, hmore, honce, -⟩ := askedOnce_advance hS hplain hrun hnil b
  refine ⟨hplain.advance hS hrun b, hnext, calls ++ more, hasked.append (honce hstep), ?_⟩
  rw [hmore, ← List.append_assoc, ← hcalls]

/-- Each node that is done in the course of a turn is asked once. -/
theorem askedOnce_run (hS : Secluded S) {fuel : Nat} {t : Turn β} {r : Playback β × World β}
    (h : t.Plain S) (hs : t.Solitary) (hr : t.run fuel = some r) : RunsAlone S t.world r := by
  have hbegin : t.GoesAlone S t.world := ⟨h, hs, [], .nil, (List.append_nil _).symm⟩
  obtain ⟨u, ⟨hplain, hsolitary, hasked⟩, rfl, -⟩ := run_induction
    (fun u b rest hu hrun hready => GoesAlone.next hS hu hrun hready) hbegin hr
  have hmem : ∀ b ∈ u.playback.pending, b ∈ u.inFlight := fun b hb => List.mem_append_right _ hb
  refine ⟨hplain.level, hplain.behaves, ?_, fun b hb => hsolitary.unresolved b (hmem b hb), hasked⟩
  have hsingle := hsolitary.single
  rw [inFlight, List.length_append] at hsingle
  change u.playback.pending.length ≤ 1
  omega

end Turn

end Cutscene
