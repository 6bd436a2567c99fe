import Cutscene.Proofs.Playback.Asking
import Cutscene.Proofs.Playback.Lineage
import Cutscene.Proofs.Playback.SkipBound
import Mathlib.Data.Fintype.Order
import Mathlib.Order.WellFounded

/-!
# Where nodes lead

Which node may come after which is for the endings of the nodes to say, for those that are passed
over, and for the behaviours that have no outputs at all. `Playback.target?` says where an ending
leads, `Playback.MayLead` what may come after a node on whatever way, and
`Playback.LeadsAtOnce` what may come after it in the same turn, while nothing is skipped. None of
this changes in the course of a playback (`Playback.SamePlan`), and without a circle there is an end
to it (`acc_of_acyclic`).
-/

namespace Cutscene

variable {β : Type}

namespace Playback

/-! ### What a playback is laid out like -/

/-- The endings of the nodes, and whether the nodes are passed over. -/
def plan (p : Playback β) : List (List Ending × Bool) :=
  p.nodes.map fun n => (n.endings, n.isRunnable)

theorem fixed_plan : Node.Fixed fun n : Node β => (n.endings, n.isRunnable) where
  running _ _ := rfl
  memo _ _ := rfl
  behaviour n b hb := Prod.ext rfl (Node.fixed_isRunnable.behaviour n b hb)

/-- Two playbacks of one graph with the same nodes. -/
structure SamePlan (p q : Playback β) : Prop where
  graph : q.graph = p.graph
  settings : q.settings = p.settings
  plan : q.plan = p.plan

theorem SamePlan.refl (p : Playback β) : p.SamePlan p := ⟨rfl, rfl, rfl⟩

theorem SamePlan.trans {p q r : Playback β} (h : p.SamePlan q) (h' : q.SamePlan r) :
    p.SamePlan r where
  graph := h'.graph.trans h.graph
  settings := h'.settings.trans h.settings
  plan := h'.plan.trans h.plan

theorem plan_of_getElem? {p : Playback β} {index : Nat} {node : Node β}
    (h : p.nodes[index]? = some node) : p.plan[index]? = some (node.endings, node.isRunnable) := by
  rw [plan, List.getElem?_map, h]
  rfl

theorem exists_node_of_plan {p : Playback β} {index : Nat} {endings : List Ending} {runnable : Bool}
    (h : p.plan[index]? = some (endings, runnable)) :
    ∃ node, p.nodes[index]? = some node ∧ node.endings = endings ∧ node.isRunnable = runnable := by
  rw [plan, List.getElem?_map] at h
  obtain ⟨node, hn, hplace⟩ := Option.map_eq_some_iff.mp h
  exact ⟨node, hn, (Prod.mk.inj hplace).1, (Prod.mk.inj hplace).2⟩

theorem SamePlan.length_eq {p q : Playback β} (h : p.SamePlan q) :
    q.nodes.length = p.nodes.length := by
  have hlength : q.plan.length = p.plan.length := congrArg List.length h.plan
  rwa [Playback.plan, Playback.plan, List.length_map, List.length_map] at hlength

variable [Behaviour β]

theorem samePlan_beginning (p : Playback β) (w : World β) (op : Operation) :
    p.SamePlan (p.beginning w op).playback where
  graph := congrArg Identity.graph (identity_beginning p w op)
  settings := congrArg Identity.settings (identity_beginning p w op)
  plan := traits_beginning fixed_plan.toLasting p w op

end Playback

theorem Turn.Change.samePlan [Behaviour β] {t u : Turn β} (h : t.Change u) :
    t.playback.SamePlan u.playback where
  graph := congrArg Playback.Identity.graph h.identity
  settings := congrArg Playback.Identity.settings h.identity
  plan := h.traits Playback.fixed_plan

theorem Turn.Changes.samePlan [Behaviour β] {t u : Turn β} (h : t.Changes u) :
    t.playback.SamePlan u.playback :=
  h.invariant (I := fun v : Turn β => t.playback.SamePlan v.playback) (.refl _)
    fun _ _ hv _ hchange => hv.trans hchange.samePlan

namespace Playback

/-! ### Endings -/

/-- The place where a branch goes on that leaves a node through an ending, if it goes on. -/
def target? (p : Playback β) (index : Nat) : Ending → Option Nat
  | .next => some (index + 1)
  | .stop => none
  | .goto target => some target
  | .start graph => if graph = p.graph then some 0 else none

/-- A branch that leaves a node through an ending has to wait before it goes on, unless nodes are
skipped. -/
def holdsBack (p : Playback β) (index : Nat) : Ending → Bool
  | .goto target => target = index
  | .start graph => graph = p.graph && 0 < p.settings.startDelay
  | _ => false

theorem SamePlan.target?_eq {p q : Playback β} (h : p.SamePlan q) (index : Nat) (ending : Ending) :
    q.target? index ending = p.target? index ending := by
  cases ending <;> simp only [target?, h.graph]

theorem SamePlan.holdsBack_eq {p q : Playback β} (h : p.SamePlan q) (index : Nat)
    (ending : Ending) : q.holdsBack index ending = p.holdsBack index ending := by
  cases ending <;> simp only [holdsBack, h.graph, h.settings]

/-! ### Nodes -/

variable [Behaviour β]

/-- The places that may come after a node: the next one, if the node is passed over, or those that
its endings lead to, unless its behaviour has no outputs. -/
inductive MayLead (S : Nat → β → Prop) (p : Playback β) (index : Nat) : Nat → Prop
  | passed {endings : List Ending} (hn : p.plan[index]? = some (endings, false)) :
    MayLead S p index (index + 1)
  | left {endings : List Ending} {ending : Ending} {b : β} {target : Nat}
    (hn : p.plan[index]? = some (endings, true)) (hb : S index b)
    (ho : Behaviour.outputs b ≠ 0) (he : ending ∈ endings)
    (ht : p.target? index ending = some target) : MayLead S p index target

/-- A behaviour that is run from the beginning wants time before the next call. -/
def Waits (ctx : Context) (vars : Variables) (b : β) : Prop :=
  (Behaviour.run ctx vars b).running = true ∧ ((Behaviour.run ctx vars b).wait != 0) = true

/-- The places that may come after a node within one turn in which nothing is skipped: the node is
passed over, or it may be done by its first call and left through an ending that does not hold a
branch back. -/
inductive LeadsAtOnce (S : Nat → β → Prop) (p : Playback β) (index : Nat) : Nat → Prop
  | passed {endings : List Ending} (hn : p.plan[index]? = some (endings, false)) :
    LeadsAtOnce S p index (index + 1)
  | left {endings : List Ending} {ending : Ending} {b : β} {ctx : Context} {vars : Variables}
    {target : Nat} (hn : p.plan[index]? = some (endings, true)) (hb : S index b)
    (hw : ¬ Waits ctx vars b) (ho : Behaviour.outputs (Behaviour.run ctx vars b).behaviour ≠ 0)
    (he : ending ∈ endings) (ht : p.target? index ending = some target)
    (hh : p.holdsBack index ending = false) : LeadsAtOnce S p index target

variable {S : Nat → β → Prop} {p q : Playback β} {i j : Nat}

/-- What may come after a node at once may come after it. -/
theorem LeadsAtOnce.mayLead (hS : Heritable S) (h : p.LeadsAtOnce S i j) : p.MayLead S i j := by
  cases h with
  | passed hn => exact .passed hn
  | left hn hb _ ho he ht _ => exact .left hn (hS.run hb _ _) ho he ht

theorem MayLead.lt_length (h : p.MayLead S i j) : i < p.nodes.length := by
  have hplan : i < p.plan.length := by
    cases h with
    | passed hn => exact (List.getElem?_eq_some_iff.mp hn).1
    | left hn => exact (List.getElem?_eq_some_iff.mp hn).1
  simpa [plan] using hplan

end Playback

/-- Where only so many places lead on and no place leads back to itself, every way comes to an
end. -/
theorem acc_of_acyclic {leads : Nat → Nat → Prop} {n : Nat} (hn : ∀ i j, leads i j → i < n)
    (hacyclic : ∀ i, ¬ Relation.TransGen leads i i) (i : Nat) :
    Acc (fun j i => leads i j) i := by
  -- Among the places that lead on, what comes later is a strict order.
  let later : Fin n → Fin n → Prop := fun j i => Relation.TransGen leads i j
  have htrans : IsTrans (Fin n) later := ⟨fun _ _ _ hij hjk => hjk.trans hij⟩
  have hirrefl : Std.Irrefl later := ⟨fun i => hacyclic i⟩
  have hwf : WellFounded later := Finite.wellFounded_of_trans_of_irrefl later
  have hplace : ∀ i : Fin n, Acc (fun j i => leads i j) i.1 := by
    intro i
    induction i using hwf.induction with
    | _ i ih =>
      refine ⟨_, fun j hj => ?_⟩
      by_cases hlt : j < n
      · exact ih ⟨j, hlt⟩ (.single hj)
      · exact ⟨_, fun k hk => absurd (hn j k hk) hlt⟩
  by_cases hlt : i < n
  · exact hplace ⟨i, hlt⟩
  · exact ⟨_, fun j hj => absurd (hn i j hj) hlt⟩

/-! ### Branches that leave a node -/

namespace Turn

/-- An ending leads nowhere, or a branch to where it leads. -/
theorem follow_cases (t : Turn β) (index : Nat) (ending : Ending) :
    t.playback.target? index ending = none ∧ (t.follow index ending).2 = none ∧
        (t.follow index ending).1.playback = t.playback ∧
        (t.follow index ending).1.ready = t.ready ∨
      ∃ b, t.follow index ending = (t, some b) ∧ b.step = .visit ∧
        t.playback.target? index ending = some b.index ∧
        (b.wake = .now ↔
          t.playback.skipping = true ∨ t.playback.holdsBack index ending = false) := by
  cases ending with
  | stop => exact Or.inl ⟨rfl, rfl, rfl, rfl⟩
  | next => exact Or.inr ⟨_, rfl, rfl, rfl, by simp [Playback.holdsBack]⟩
  | goto target =>
    refine Or.inr ⟨_, rfl, rfl, rfl, ?_⟩
    by_cases hs : t.playback.skipping = true <;> by_cases ht : target = index <;>
      simp [hs, ht, Playback.holdsBack]
  | start graph =>
    by_cases hg : graph = t.playback.graph
    · refine Or.inr ⟨_, if_pos hg, rfl, if_pos hg, ?_⟩
      by_cases hs : t.playback.skipping = true <;>
        by_cases hd : 0 < t.playback.settings.startDelay <;>
        simp [hs, hd, hg, Playback.holdsBack, Playback.after]
    · refine Or.inl ⟨by simp [Playback.target?, hg], ?_, ?_, ?_⟩ <;> simp [follow, hg]

variable [Behaviour β]

omit [Behaviour β] in
/-- The ending that an output of a node stands for; a branch stops if there is none. -/
theorem endingAt_snd (t : Turn β) (node : Node β) (output : Int) :
    (t.endingAt node output).2 =
      (if 0 ≤ output then node.endings[output.toNat]? else none).getD .stop := by
  unfold endingAt
  split
  · rename_i ending hending
    rw [hending]
    rfl
  · rename_i hnone
    rw [hnone]
    rfl

omit [Behaviour β] in
theorem endingAt_of_getElem? (t : Turn β) {node : Node β} {output : Int} {ending : Ending}
    (hpos : 0 ≤ output) (h : node.endings[output.toNat]? = some ending) :
    (t.endingAt node output).2 = ending := by
  rw [endingAt_snd, if_pos hpos, h, Option.getD_some]

omit [Behaviour β] in
/-- Unless the branch stops there is an output with that ending. -/
theorem getElem?_of_endingAt {t : Turn β} {node : Node β} {output : Int}
    (h : (t.endingAt node output).2 ≠ .stop) :
    0 ≤ output ∧ node.endings[output.toNat]? = some (t.endingAt node output).2 := by
  rw [endingAt_snd] at h ⊢
  by_cases hpos : 0 ≤ output
  · rw [if_pos hpos] at h ⊢
    cases hending : node.endings[output.toNat]? with
    | none => simp [hending] at h
    | some ending => exact ⟨hpos, rfl⟩
  · simp [hpos] at h

/-- A node only takes an ending of its own, and none if its behaviour has no outputs. -/
theorem mem_of_mem_endings {t : Turn β} {index : Nat} {node : Node β} {ending : Ending}
    (h : ending ∈ (t.endings index node).2) : ending = .stop ∨
      ending ∈ node.endings ∧ ∃ b, node.behaviour = some b ∧ Behaviour.outputs b ≠ 0 := by
  have hat : ∀ (u : Turn β) (output : Int),
      (u.endingAt node output).2 = .stop ∨ (u.endingAt node output).2 ∈ node.endings := by
    intro u output
    by_cases hstop : (u.endingAt node output).2 = .stop
    · exact Or.inl hstop
    · exact Or.inr (List.mem_of_getElem? (getElem?_of_endingAt hstop).2)
  unfold Turn.endings at h
  split at h
  · exact Or.inl (List.mem_singleton.mp h)
  · rename_i b hb
    split_ifs at h with hfan
    · have hpos : Behaviour.outputs b ≠ 0 := by
        have hlt := (Bool.and_eq_true_iff.mp hfan).2
        simp only [decide_eq_true_eq] at hlt
        omega
      exact Or.inr ⟨List.mem_of_mem_take h, b, hb, hpos⟩
    · rw [List.mem_singleton.mp h]
      by_cases hnone : Behaviour.outputs b = 0
      · exact Or.inl (by rw [resolve_of_outputs_eq_zero t index node hnone])
      · cases hm : t.recalled? node b with
        | some output =>
          rw [resolve_of_recalled index hnone hm]
          exact (hat _ _).imp_right fun hmem => ⟨hmem, b, hb, hnone⟩
        | none =>
          rw [resolve_of_choice index hnone hm]
          exact (hat _ _).imp_right fun hmem => ⟨hmem, b, hb, hnone⟩

omit [Behaviour β] in
/-- A branch leaves a node through an ending. -/
def depart (t : Turn β) (index : Nat) (ending : Ending) : Turn β :=
  match t.follow index ending with
  | (u, none) => u.settle
  | (u, some b) => if b.wake = .now then u.push b else u.defer b

theorem leave_of_single {t : Turn β} {index : Nat} {node : Node β} {ending : Ending}
    (h : (t.endings index node).2 = [ending]) :
    t.leave index node = (t.endings index node).1.depart index ending := by
  unfold leave depart
  rw [h, followAll]
  rcases (t.endings index node).1.follow index ending with ⟨u, _ | b⟩
  · rfl
  · rfl

omit [Behaviour β] in
theorem settle_of_alone {t : Turn β} (hrun : t.playback.phase = .running)
    (hpause : t.playback.pauseRequested = false) (halone : t.inFlight = []) :
    t.settle = t.endRun := by
  obtain ⟨hready, hpending⟩ := List.append_eq_nil_iff.mp halone
  unfold settle
  rw [hready, hpending, hrun, hpause]
  rfl

omit [Behaviour β] in
/-- Where a branch goes that has nobody beside it: nowhere, and the run is over, or to the place
that the ending leads to. -/
theorem depart_cases {t : Turn β} (hrun : t.playback.phase = .running)
    (hpause : t.playback.pauseRequested = false) (halone : t.inFlight = []) (index : Nat)
    (ending : Ending) :
    (t.playback.target? index ending = none ∧ ∃ u, t.Forward 0 u ∧
        u.world.calls = t.world.calls ∧ t.depart index ending = u.endRun) ∨
      ∃ b, b.step = .visit ∧ t.playback.target? index ending = some b.index ∧
        (b.wake = .now ↔ t.playback.skipping = true ∨ t.playback.holdsBack index ending = false) ∧
        t.depart index ending = if b.wake = .now then t.push b else t.defer b := by
  unfold depart
  rcases t.follow_cases index ending with ⟨htarget, hnone, hplayback, hrow⟩ |
    ⟨b, hfollow, hstep, htarget, hwake⟩
  · have hforward := t.forward_follow index ending
    have hcalls := t.calls_follow index ending
    rcases hf : t.follow index ending with ⟨u, _ | b⟩ <;>
      rw [hf] at hnone hplayback hrow hforward hcalls
    · have halone' : u.inFlight = [] := by
        rw [inFlight, hrow, hplayback]
        exact halone
      exact Or.inl ⟨htarget, u, hforward, hcalls,
        settle_of_alone (hplayback ▸ hrun) (hplayback ▸ hpause) halone'⟩
    · simp at hnone
  · rw [hfollow]
    exact Or.inr ⟨b, hstep, htarget, hwake, rfl⟩

/-- The turn in which a node that is done has been asked, but not been left. -/
def resolved (t : Turn β) (index : Nat) (node : Node β) : Turn β :=
  ((t.rest index).endings index node).1

/-- The endings through which a node that is done is left. -/
def exits (t : Turn β) (index : Nat) (node : Node β) : List Ending :=
  ((t.rest index).endings index node).2

theorem forward_resolved (t : Turn β) (index : Nat) (node : Node β) :
    t.Forward 0 (t.resolved index node) :=
  (forward_of_modifyNode (t.calm_rest index) rfl).trans ((t.rest index).forward_endings index node)

theorem changes_resolved {t : Turn β} {index : Nat} {node : Node β}
    (hrun : t.playback.phase = .running) (hn : t.playback.nodes[index]? = some node) :
    t.Changes (t.resolved index node) := by
  have hn' : (t.rest index).playback.nodes[index]? = some { node with running := false } := by
    change (t.playback.nodes.modify index _)[index]? = _
    rw [List.getElem?_modify_eq, hn]
    rfl
  -- Whether the node is marked as running does not matter to its endings.
  have hendings : (t.rest index).Changes
      ((t.rest index).endings index { node with running := false }).1 := changes_endings hrun hn'
  exact ((Change.rested index).changes hrun).trans hendings

theorem inFlight_resolved (t : Turn β) (index : Nat) (node : Node β) :
    (t.resolved index node).inFlight = t.inFlight := by
  rw [resolved, inFlight_of_sameBranches ((t.rest index).sameBranches_endings index node)]
  rfl

/-- A node that takes one output at a time is left through one ending. -/
theorem finish_of_single {t : Turn β} {index : Nat} {node : Node β}
    (hn : t.playback.nodes[index]? = some node) (hpause : t.playback.pauseRequested = false)
    (hnode : ∀ b, node.behaviour = some b → Behaviour.fansOut b = false) :
    ∃ ending, t.exits index node = [ending] ∧
      t.finish index = (t.resolved index node).depart index ending := by
  obtain ⟨ending, hending⟩ := (t.rest index).endings_eq_singleton index hnode
  refine ⟨ending, hending, ?_⟩
  rw [finish_of_following hn hpause, leave_of_single hending]
  rfl

variable {t : Turn β} {index : Nat} {node : Node β} {b : β}

theorem exits_of_outputs_eq_zero (hb : node.behaviour = some b)
    (houtputs : Behaviour.outputs b = 0) : t.exits index node = [.stop] := by
  unfold exits Turn.endings
  rw [hb]
  dsimp only
  rw [houtputs, resolve_of_outputs_eq_zero _ index node houtputs]
  simp

/-- A node that is asked takes the ending that its behaviour chooses. -/
theorem exits_of_choice (hb : node.behaviour = some b) (hfan : Behaviour.fansOut b = false)
    (houtputs : Behaviour.outputs b ≠ 0) (hm : t.recalled? node b = none) :
    t.exits index node = [(t.endingAt node (t.choice index b).output).2] ∧
      (t.resolved index node).playback.nodes =
        ((t.rest index).chosen index node b).playback.nodes := by
  have hm' : (t.rest index).recalled? node b = none := hm
  have hnodes : ∀ (u : Turn β) (output : Int),
      (u.endingAt node output).1.playback.nodes = u.playback.nodes := by
    intro u output
    unfold endingAt
    split <;> rfl
  unfold exits resolved Turn.endings
  rw [hb]
  dsimp only
  rw [hfan, Bool.false_and, if_neg Bool.false_ne_true, resolve_of_choice index houtputs hm']
  exact ⟨by rw [endingAt_snd, endingAt_snd]; rfl, hnodes _ _⟩

/-- A skip takes the ending that was taken before. -/
theorem exits_of_recalled (hb : node.behaviour = some b) (hfan : Behaviour.fansOut b = false)
    (houtputs : Behaviour.outputs b ≠ 0) {output : Nat} (hm : t.recalled? node b = some output) :
    t.exits index node = [(t.endingAt node output).2] ∧
      (t.resolved index node).playback.nodes = ((t.rest index).recalled index).playback.nodes := by
  have hm' : (t.rest index).recalled? node b = some output := hm
  have hnodes : ∀ (u : Turn β) (output : Int),
      (u.endingAt node output).1.playback.nodes = u.playback.nodes := by
    intro u output
    unfold endingAt
    split <;> rfl
  unfold exits resolved Turn.endings
  rw [hb]
  dsimp only
  rw [hfan, Bool.false_and, if_neg Bool.false_ne_true, resolve_of_recalled index houtputs hm']
  exact ⟨by rw [endingAt_snd, endingAt_snd], hnodes _ _⟩

omit [Behaviour β] in
/-- A call leaves a node its endings and its memo. -/
theorem exists_node_called (hn : t.playback.nodes[index]? = some node) (form : Call.Form) (b : β)
    (o : Outcome β) (running : Bool) :
    ∃ n, (t.called form index b o running).playback.nodes[index]? = some n ∧
      n.behaviour = some o.behaviour ∧ n.endings = node.endings ∧ n.memo = node.memo ∧
      n.enabled = node.enabled := by
  refine ⟨{ node with behaviour := some o.behaviour, running }, ?_, rfl, rfl, rfl, rfl⟩
  change (t.playback.nodes.modify index _)[index]? = _
  rw [List.getElem?_modify_eq, hn]
  rfl

/-- A node that is done makes a branch ready to where its one ending leads at once. -/
theorem finish_of_leads {ending : Ending} {target : Nat} (hrun : t.playback.phase = .running)
    (hpause : t.playback.pauseRequested = false) (hn : t.playback.nodes[index]? = some node)
    (hexits : t.exits index node = [ending])
    (htarget : t.playback.target? index ending = some target)
    (hnow : t.playback.skipping = true ∨ t.playback.holdsBack index ending = false) :
    ∃ c, t.finish index = (t.resolved index node).push c ∧ c.step = .visit ∧ c.index = target := by
  -- A node that is asked keeps to the plan, so the ending leads where it led before.
  have hsame := (changes_resolved hrun hn).samePlan
  rw [← hsame.target?_eq] at htarget
  rw [← hsame.holdsBack_eq, ← (t.forward_resolved index node).calm.skipping] at hnow
  have hleave : t.finish index = (t.resolved index node).depart index ending := by
    rw [finish_of_following hn hpause, leave_of_single hexits]
    rfl
  rw [hleave]
  unfold depart
  rcases (t.resolved index node).follow_cases index ending with ⟨hnone, -⟩ |
    ⟨c, hfollow, hstep, hto, hwake⟩
  · simp [htarget] at hnone
  · rw [hfollow]
    dsimp only
    rw [if_pos (hwake.mpr hnow)]
    exact ⟨c, rfl, hstep, Option.some.inj (hto.symm.trans htarget)⟩

end Turn

end Cutscene
