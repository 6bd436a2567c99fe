import Cutscene.Proofs.Playback.Stops

/-!
# Turns, change by change

Whatever a turn does comes to a number of small changes. `Turn.Change` lists them, with what the
program knows when it makes each of them, and `Turn.Changes` are any number of them, made while the
playback runs. Taking up a branch is a sequence of changes (`changes_advance`), and so is a run
(`changes_run`) up to every branch on its way (`changes_of_works`). What every change keeps is
therefore kept by a run, however the branches chase each other. A skip only takes up branches that
arrive at nodes (`Turn.Straight`), so nothing is run while it is under way.
-/

namespace Cutscene

variable {β κ : Type}

/-! ### What is fixed about nodes -/

/-- Something about nodes that does not show how far a run has come. -/
structure Node.Lasting (trait : Node β → κ) : Prop where
  running : ∀ n running, trait { n with running } = trait n
  memo : ∀ n memo, trait { n with memo } = trait n

/-- Something about nodes to which it does not matter how they behave, as long as they do. -/
structure Node.Fixed (trait : Node β → κ) : Prop extends Node.Lasting trait where
  behaviour : ∀ n b, n.behaviour.isSome = true → trait { n with behaviour := some b } = trait n

theorem Node.fixed_endings : Node.Fixed fun n : Node β => n.endings where
  running _ _ := rfl
  memo _ _ := rfl
  behaviour _ _ _ := rfl

theorem Node.fixed_isRunnable : Node.Fixed fun n : Node β => n.isRunnable where
  running _ _ := rfl
  memo _ _ := rfl
  behaviour n _ hb := by simp [Node.isRunnable, hb]

/-- A branch that a node may make ready as it is left. It is taken up at once, and unless nodes are
skipped it leads a node back to itself only if that starts its own graph again. -/
structure Playback.MakesReady (p : Playback β) (b : Branch) : Prop where
  visit : b.step = .visit
  now : b.wake = .now
  returns : p.skipping = false → b.origin = some b.index →
    b.index = 0 ∧ ∃ n, p.nodes[0]? = some n ∧ Ending.start p.graph ∈ n.endings

namespace Turn

/-- While nodes are skipped no branch goes on with a node. -/
def Straight (t : Turn β) : Prop :=
  t.playback.skipping = true → ∀ b ∈ t.ready, b.step = .visit

variable [Behaviour β]

/-- One of the changes that a turn is made of. -/
inductive Change (t : Turn β) : Turn β → Prop
  /-- The next branch is taken up. -/
  | taken {b : Branch} {rest : List Branch} (h : t.ready = b :: rest) :
    Change t { t with ready := rest }
  | pushed {b : Branch} (hb : t.playback.MakesReady b) : Change t (t.push b)
  | deferred {b : Branch} (hb : b.step ≠ .resolve) : Change t (t.defer b)
  | counted (hs : t.playback.skipping = true) :
    Change t { t with playback := { t.playback with hops := t.playback.hops + 1 } }
  | noticed (notice : Notice) : Change t { t with world := t.world.notice notice }
  /-- An ending leads to another graph. -/
  | raised {node : Node β} {graph : String} (hn : node ∈ t.playback.nodes)
    (he : Ending.start graph ∈ node.endings) (hg : graph ≠ t.playback.graph) :
    Change t { t with world := t.world.raise (.start graph 0 true t.playback.skipping) }
  | skipped {index : Nat} {node : Node β} {b : β} (hn : t.playback.nodes[index]? = some node)
    (hb : node.behaviour = some b) (hs : t.playback.skipping = true) :
    Change t (t.called .skip index (t.assigned b) (t.skipOutcome index (t.assigned b)) false)
  | ran {index : Nat} {node : Node β} {b b' : β} {running : Bool}
    (hn : t.playback.nodes[index]? = some node) (hb : node.behaviour = some b)
    (hb' : b' = b ∨ b' = t.assigned b) (hs : t.playback.skipping = false) :
    Change t (t.ran index running b')
  | rested (index : Nat) : Change t (t.rest index)
  | kept (index : Nat) : Change t (t.keep index)
  | recalled {index output : Nat} {node : Node β} {b : β}
    (hn : t.playback.nodes[index]? = some node) (hb : node.behaviour = some b)
    (hm : t.recalled? node b = some output) : Change t (t.recalled index)
  | chosen {index : Nat} {node : Node β} {b : β} (hn : t.playback.nodes[index]? = some node)
    (hb : node.behaviour = some b) (hm : t.recalled? node b = none) :
    Change t (t.chosen index node b)
  | ended : Change t t.endRun
  | paused (hp : t.playback.pauseRequested = true) : Change t t.endPause
  | killed (hs : t.playback.skipping = true) : Change t
    { t with playback := (t.playback.kill t.world).1, world := (t.playback.kill t.world).2 }

/-- One change of a turn that is running. -/
def Goes (t u : Turn β) : Prop := t.playback.phase = .running ∧ t.Change u

/-- Any number of changes, made while the playback runs. -/
abbrev Changes (t u : Turn β) : Prop := Relation.ReflTransGen Goes t u

theorem Change.changes {t u : Turn β} (h : t.Change u) (hp : t.playback.phase = .running) :
    t.Changes u :=
  .single ⟨hp, h⟩

/-- What every change of a running turn keeps is kept by any number of them. -/
theorem Changes.invariant {I : Turn β → Prop} {t u : Turn β} (h : t.Changes u) (ht : I t)
    (hstep : ∀ t u : Turn β, I t → t.playback.phase = .running → t.Change u → I u) : I u := by
  induction h with
  | refl => exact ht
  | tail _ hs ih => exact hstep _ _ ih hs.1 hs.2

/-! ### What follows from a change -/

variable {t u : Turn β}

/-- Nothing changes what is fixed about nodes. -/
theorem Change.traits {κ : Type} {trait : Node β → κ} (ht : Node.Fixed trait) (h : t.Change u) :
    u.playback.nodes.map trait = t.playback.nodes.map trait := by
  cases h with
  | rested => exact Playback.map_modifyNode trait fun n _ => ht.running n false
  | recalled => exact Playback.map_modifyNode trait fun n _ => ht.memo n none
  | skipped hn hb | ran hn hb =>
    refine Playback.map_modifyNode trait fun n hn' => ?_
    obtain rfl := Option.some.inj (hn.symm.trans hn')
    exact (ht.running _ _).trans (ht.behaviour _ _ (hb ▸ rfl))
  | chosen hn hb =>
    refine Playback.map_modifyNode trait fun n hn' => ?_
    obtain rfl := Option.some.inj (hn.symm.trans hn')
    exact (ht.memo _ _).trans (ht.behaviour _ _ (hb ▸ rfl))
  | killed =>
    change (t.playback.nodes.map fun n => { n with running := false }).map trait = _
    rw [List.map_map]
    exact List.map_congr_left fun n _ => ht.running n false
  | _ => rfl

/-- The endings of the nodes are what they were. -/
theorem Change.endings (h : t.Change u) :
    u.playback.nodes.map (·.endings) = t.playback.nodes.map (·.endings) :=
  h.traits Node.fixed_endings

/-- A skip may come to its end, but none begins. -/
theorem Change.skipping (h : t.Change u) (hs : u.playback.skipping = true) :
    t.playback.skipping = true := by
  cases h with
  | ended | paused | killed => simp [endRun, endPause, Playback.kill, Playback.clearBranches] at hs
  | _ => exact hs

/-- A change is calm, or the run is over, paused or killed by it. -/
theorem Change.calm_or_stops (h : t.Change u) :
    t.Calm u ∧ u.playback.start = t.playback.start ∨ u = t.endRun ∨
      t.playback.pauseRequested = true ∧ u = t.endPause ∨
      t.playback.skipping = true ∧ u = { t with
        playback := (t.playback.kill t.world).1, world := (t.playback.kill t.world).2 } := by
  cases h with
  | taken | counted => exact Or.inl ⟨⟨rfl, rfl, rfl, rfl, .refl _⟩, rfl⟩
  | pushed => exact Or.inl ⟨t.calm_push _, rfl⟩
  | deferred => exact Or.inl ⟨t.calm_defer _, rfl⟩
  | noticed notice => exact Or.inl ⟨⟨rfl, rfl, rfl, rfl, t.world.quiet_notice notice⟩, rfl⟩
  | raised => exact Or.inl ⟨⟨rfl, rfl, rfl, rfl, t.world.quiet_raise _⟩, rfl⟩
  | skipped | ran => exact Or.inl ⟨t.calm_called _ _ _ _ _, rfl⟩
  | rested index => exact Or.inl ⟨t.calm_rest index, rfl⟩
  | kept index => exact Or.inl ⟨t.calm_keep index, rfl⟩
  | recalled => exact Or.inl ⟨t.calm_recalled _, rfl⟩
  | chosen => exact Or.inl ⟨t.calm_chosen _ _ _, rfl⟩
  | ended => exact Or.inr (Or.inl rfl)
  | paused hp => exact Or.inr (Or.inr (Or.inl ⟨hp, rfl⟩))
  | killed hs => exact Or.inr (Or.inr (Or.inr ⟨hs, rfl⟩))

/-- It is the same playback as before. -/
theorem Change.identity (h : t.Change u) : u.playback.identity = t.playback.identity := by
  rcases h.calm_or_stops with ⟨hcalm, -⟩ | rfl | ⟨-, rfl⟩ | ⟨-, rfl⟩
  · exact hcalm.identity
  · rfl
  · rfl
  · rfl

theorem Change.straight (h : t.Change u) (ht : t.Straight) : u.Straight := by
  intro hs
  have hvisits := ht (h.skipping hs)
  cases h with
  | taken hready =>
    intro b hb
    exact hvisits b (hready ▸ List.mem_cons_of_mem _ hb)
  | pushed hb =>
    intro b hmem
    rcases List.mem_append.mp hmem with hmem | hmem
    · exact hvisits b hmem
    · rw [List.mem_singleton.mp hmem]
      exact hb.visit
  | _ => exact hvisits

/-! ### Taking up a branch -/

theorem changes_settle (t : Turn β) (h : t.playback.phase = .running) : t.Changes t.settle := by
  unfold settle
  split_ifs with _ hpause
  · exact .refl
  · exact (Change.paused (Bool.and_eq_true_iff.mp hpause).1).changes h
  · exact Change.ended.changes h

omit [Behaviour β] in
theorem makesReady_of_follow {t u : Turn β} {index : Nat} {ending : Ending} {b : Branch}
    (h : t.follow index ending = (u, some b)) (hnow : b.wake = .now)
    (he : ∀ graph, ending = .start graph →
      ∃ n, t.playback.nodes[index]? = some n ∧ ending ∈ n.endings) :
    u.playback.MakesReady b := by
  refine ⟨(follow_branch h).1, hnow, ?_⟩
  intro hs horigin
  cases ending with
  | stop => simp [follow] at h
  | next =>
    simp only [follow, Prod.mk.injEq, Option.some.injEq] at h
    obtain ⟨-, rfl⟩ := h
    simp at horigin
  | goto target =>
    simp only [follow, Prod.mk.injEq, Option.some.injEq] at h
    obtain ⟨rfl, rfl⟩ := h
    -- A node that leads to itself lets a tick pass.
    obtain rfl := Option.some.inj horigin
    simp [hs] at hnow
  | start graph =>
    obtain ⟨n, hn, hmem⟩ := he graph rfl
    by_cases hg : graph = t.playback.graph
    · simp only [follow, hg, if_true, Prod.mk.injEq, Option.some.injEq] at h
      obtain ⟨rfl, rfl⟩ := h
      obtain rfl : index = 0 := Option.some.inj horigin
      exact ⟨rfl, n, hn, hg ▸ hmem⟩
    · simp [follow, hg] at h

theorem changes_endingAt (t : Turn β) (node : Node β) (output : Int)
    (h : t.playback.phase = .running) : t.Changes (t.endingAt node output).1 := by
  unfold endingAt
  split
  · exact .refl
  · exact (Change.noticed _).changes h

/-- An ending that is followed is one of a node. -/
theorem changes_follow {t : Turn β} (index : Nat) {ending : Ending}
    (h : t.playback.phase = .running)
    (he : ∀ graph, ending = .start graph →
      ∃ n, t.playback.nodes[index]? = some n ∧ ending ∈ n.endings) :
    t.Changes (t.follow index ending).1 := by
  cases ending with
  | start graph =>
    by_cases hg : graph = t.playback.graph
    · simp only [follow, hg, if_true]
      exact .refl
    · obtain ⟨n, hn, hmem⟩ := he graph rfl
      simp only [follow, hg, if_false]
      exact (Change.raised (List.mem_of_getElem? hn) hmem hg).changes h
  | _ => exact .refl

theorem changes_followAll {t : Turn β} (index : Nat) {endings : List Ending}
    (h : t.playback.phase = .running)
    (he : ∀ graph, .start graph ∈ endings →
      ∃ n, t.playback.nodes[index]? = some n ∧ Ending.start graph ∈ n.endings) :
    t.Changes (t.followAll index endings).1 ∧
      (t.followAll index endings).1.playback.phase = .running := by
  induction endings generalizing t with
  | nil => exact ⟨.refl, h⟩
  | cons ending rest ih =>
    have hfirst : ∀ graph, ending = .start graph →
        ∃ n, t.playback.nodes[index]? = some n ∧ ending ∈ n.endings := fun graph hgraph =>
      hgraph ▸ he graph (hgraph ▸ List.mem_cons_self)
    have hf := changes_follow (t := t) index h hfirst
    have hcalm := t.calm_follow index ending
    have hnodes : (t.follow index ending).1.playback.nodes = t.playback.nodes := by
      cases ending <;> simp only [follow]
      split_ifs <;> rfl
    have hrest : ∀ graph, .start graph ∈ rest →
        ∃ n, (t.follow index ending).1.playback.nodes[index]? = some n ∧
          Ending.start graph ∈ n.endings := by
      intro graph hmem
      rw [hnodes]
      exact he graph (List.mem_cons_of_mem _ hmem)
    rw [followAll]
    rcases hfollow : t.follow index ending with ⟨u, _ | b⟩ <;>
      rw [hfollow] at hf hcalm hrest <;> dsimp only
    · obtain ⟨hchanges, hphase⟩ := ih (hcalm.phase.trans h) hrest
      exact ⟨hf.trans hchanges, hphase⟩
    · have hvisit : b.step = .visit := (follow_branch hfollow).1
      have hrun : u.playback.phase = .running := hcalm.phase.trans h
      split_ifs with hnow
      · have hready : u.playback.MakesReady b := makesReady_of_follow hfollow hnow hfirst
        obtain ⟨hchanges, hphase⟩ := ih (t := u.push b) hrun hrest
        exact ⟨(hf.trans ((Change.pushed hready).changes hrun)).trans hchanges, hphase⟩
      · have hdeferred : u.Change (u.defer b) := .deferred (by simp [hvisit])
        obtain ⟨hchanges, hphase⟩ := ih (t := u.defer b) hrun hrest
        exact ⟨(hf.trans (hdeferred.changes hrun)).trans hchanges, hphase⟩

theorem changes_resolve {t : Turn β} {index : Nat} {node : Node β} {b : β}
    (h : t.playback.phase = .running) (hn : t.playback.nodes[index]? = some node)
    (hb : node.behaviour = some b) : t.Changes (t.resolve index node b).1 := by
  by_cases hnone : Behaviour.outputs b = 0
  · rw [resolve_of_outputs_eq_zero t index node hnone]
  · cases hm : t.recalled? node b with
    | some output =>
      rw [resolve_of_recalled index hnone hm]
      exact ((Change.recalled hn hb hm).changes h).trans (changes_endingAt _ node output h)
    | none =>
      rw [resolve_of_choice index hnone hm]
      exact ((Change.chosen hn hb hm).changes h).trans (changes_endingAt _ node _ h)

omit [Behaviour β] in
theorem endingAt_mem {t : Turn β} {node : Node β} {output : Int} {graph : String}
    (h : (t.endingAt node output).2 = .start graph) : Ending.start graph ∈ node.endings := by
  unfold endingAt at h
  split at h
  · rename_i ending hending
    split_ifs at hending
    exact h ▸ List.mem_of_getElem? hending
  · simp at h

/-- The endings that a node takes are its own, or lead nowhere. -/
theorem endings_mem {t : Turn β} {index : Nat} {node : Node β} {graph : String}
    (h : Ending.start graph ∈ (t.endings index node).2) : Ending.start graph ∈ node.endings := by
  unfold Turn.endings at h
  split at h
  · simp at h
  · rename_i b hb
    split_ifs at h
    · exact List.mem_of_mem_take h
    · have hending : (t.resolve index node b).2 = .start graph := (List.mem_singleton.mp h).symm
      by_cases hnone : Behaviour.outputs b = 0
      · simp [resolve_of_outputs_eq_zero t index node hnone] at hending
      · cases hm : t.recalled? node b with
        | some output =>
          rw [resolve_of_recalled index hnone hm] at hending
          exact endingAt_mem hending
        | none =>
          rw [resolve_of_choice index hnone hm] at hending
          exact endingAt_mem hending

theorem changes_endings {t : Turn β} {index : Nat} {node : Node β}
    (h : t.playback.phase = .running) (hn : t.playback.nodes[index]? = some node) :
    t.Changes (t.endings index node).1 := by
  unfold Turn.endings
  split
  · exact .refl
  · split_ifs
    · exact .refl
    · exact changes_resolve h hn (by assumption)

theorem changes_leave {t : Turn β} {index : Nat} {node : Node β}
    (h : t.playback.phase = .running) (hn : t.playback.nodes[index]? = some node) :
    t.Changes (t.leave index node) := by
  have hchanges : t.Changes (t.endings index node).1 := changes_endings h hn
  have hphase : (t.endings index node).1.playback.phase = .running :=
    (t.calm_endings index node).phase.trans h
  -- Other nodes may have chosen in between, but no ending has been changed.
  have hendings : (t.endings index node).1.playback.nodes.map (·.endings) =
      t.playback.nodes.map (·.endings) :=
    hchanges.invariant (I := fun u : Turn β =>
      u.playback.nodes.map (·.endings) = t.playback.nodes.map (·.endings)) rfl
      fun _ _ hu _ hc => hc.endings.trans hu
  have hmem : ∀ graph, .start graph ∈ (t.endings index node).2 →
      ∃ n, (t.endings index node).1.playback.nodes[index]? = some n ∧
        Ending.start graph ∈ n.endings := by
    intro graph hgraph
    have hown := congrArg (·[index]?) hendings
    simp only [List.getElem?_map, hn, Option.map_some, Option.map_eq_some_iff] at hown
    obtain ⟨n, hn', hsame⟩ := hown
    exact ⟨n, hn', hsame ▸ endings_mem hgraph⟩
  obtain ⟨hfollow, hrun⟩ := changes_followAll index hphase hmem
  unfold leave
  rcases hf : (t.endings index node).1.followAll index (t.endings index node).2 with ⟨u, _ | _⟩ <;>
    rw [hf] at hfollow hrun
  · exact (hchanges.trans hfollow).trans (u.changes_settle hrun)
  · exact hchanges.trans hfollow

theorem changes_finish (t : Turn β) (index : Nat) (h : t.playback.phase = .running) :
    t.Changes (t.finish index) := by
  cases hn : t.playback.nodes[index]? with
  | none =>
    rw [finish_of_none hn]
    exact t.changes_settle h
  | some node =>
    have hrest : t.Changes (t.rest index) := (Change.rested index).changes h
    cases hp : t.playback.pauseRequested with
    | false =>
      have hn' : (t.rest index).playback.nodes[index]? = some { node with running := false } := by
        change (t.playback.nodes.modify index _)[index]? = _
        rw [List.getElem?_modify_eq, hn]
        rfl
      -- Whether the node is marked as running does not matter to its endings.
      have hleave : (t.rest index).Changes
          ((t.rest index).leave index { node with running := false }) := changes_leave h hn'
      rw [finish_of_following hn hp]
      exact hrest.trans hleave
    | true =>
      have hkeep : (t.rest index).Changes ((t.rest index).keep index) :=
        (Change.kept index).changes h
      rw [finish_of_pauseRequested hn hp]
      split_ifs
      · have hpaused : ((t.rest index).keep index).Change ((t.rest index).keep index).endPause :=
          .paused hp
        exact (hrest.trans hkeep).trans (hpaused.changes h)
      · exact hrest.trans hkeep

theorem changes_suspend (t : Turn β) (index : Nat) (wait : Float32)
    (h : t.playback.phase = .running) : t.Changes (t.suspend index wait) := by
  have hpoll : t.Change (t.suspend index wait) := .deferred (by simp)
  exact hpoll.changes h

theorem changes_enter {t : Turn β} {index : Nat} {node : Node β} {b : β}
    (h : t.playback.phase = .running) (hn : t.playback.nodes[index]? = some node)
    (hb : node.behaviour = some b) : t.Changes (t.enter index b) := by
  cases hs : t.playback.skipping with
  | true =>
    rw [enter_of_skipping hs]
    exact ((Change.skipped hn hb hs).changes h).trans (changes_finish _ index h)
  | false =>
    have hran : t.Changes (t.ran index false (t.assigned b)) :=
      (Change.ran hn hb (Or.inr rfl) hs).changes h
    rw [enter_of_playing hs]
    dsimp only
    split_ifs
    · exact hran.trans (changes_suspend _ index _ h)
    · exact hran.trans (changes_finish _ index h)

/-- The hop that a skip takes may be one too many. -/
theorem changes_hop (t : Turn β) (h : t.playback.phase = .running) : t.Changes t.hop.1 := by
  unfold hop
  dsimp only
  split_ifs with hs
  · -- The hop is counted and told of before the playback is killed.
    let u : Turn β := { t with playback := { t.playback with hops := t.playback.hops + 1 } }
    let v : Turn β := { u with world := u.world.notice .hopLimitExceeded }
    have hcounted : t.Changes u := (Change.counted hs).changes h
    have hnoticed : u.Changes v := (Change.noticed .hopLimitExceeded).changes h
    have hkilled : v.Changes _ := (Change.killed (t := v) hs).changes h
    exact (hcounted.trans hnoticed).trans hkilled
  · exact (Change.counted hs).changes h
  · exact .refl

theorem changes_visit (t : Turn β) (index : Nat) (h : t.playback.phase = .running) :
    t.Changes (t.visit index) := by
  have hchanges := t.changes_hop h
  rcases t.hop_cases with ⟨hhop, hcalm, -⟩ | ⟨hhop, -⟩
  · have hrun : t.hop.1.playback.phase = .running := hcalm.phase.trans h
    refine hchanges.trans ?_
    cases hn : t.hop.1.playback.nodes[index]? with
    | none =>
      rw [visit_of_none hhop hn]
      exact changes_settle _ hrun
    | some node =>
      cases hr : node.isRunnable with
      | false =>
        rw [visit_of_not_runnable hhop hn (isRunnable_eq_false hr)]
        exact (Change.pushed ⟨rfl, rfl, fun _ horigin => by simp at horigin⟩).changes hrun
      | true =>
        obtain ⟨he, hsome⟩ := Bool.and_eq_true_iff.mp hr
        obtain ⟨b, hb⟩ := Option.isSome_iff_exists.mp hsome
        rw [visit_of_runnable hhop hn he hb]
        exact changes_enter hrun hn hb
  · rw [visit_of_killed hhop]
    exact hchanges

theorem changes_poll (t : Turn β) (index : Nat) (h : t.playback.phase = .running)
    (hs : t.playback.skipping = false) : t.Changes (t.poll index) := by
  cases hn : t.playback.nodes[index]? with
  | none =>
    rw [poll_of_none hn]
    exact t.changes_settle h
  | some node =>
    cases hb : node.behaviour with
    | none =>
      rw [poll_of_behaviour_none hn hb]
      exact t.changes_finish index h
    | some b =>
      have hran : t.Changes (t.ran index node.running b) :=
        (Change.ran hn hb (Or.inl rfl) hs).changes h
      rw [poll_of_some hn hb]
      change t.Changes
        (if (t.runOutcome index node.running b).running = true then
          (t.ran index node.running b).suspend index _
        else (t.ran index node.running b).finish index)
      split_ifs
      · exact hran.trans (changes_suspend _ index _ h)
      · exact hran.trans (changes_finish _ index h)

theorem changes_advance (t : Turn β) (b : Branch) (h : t.playback.phase = .running)
    (hs : t.playback.skipping = true → b.step = .visit) : t.Changes (t.advance b) := by
  unfold advance
  cases hb : b.step with
  | visit => exact t.changes_visit b.index h
  | poll =>
    refine t.changes_poll b.index h ?_
    by_contra hskip
    simp [hs (by simpa using hskip)] at hb
  | resolve => exact t.changes_finish b.index h

/-! ### Branch after branch -/

theorem Changes.straight (h : t.Changes u) (ht : t.Straight) : u.Straight :=
  h.invariant ht fun _ _ hs _ hc => hc.straight hs

/-- A turn goes change by change to every turn on its way. -/
theorem changes_of_works {stops : List (Nat × Bool)} (ht : t.Straight) (h : t.Works stops u) :
    t.Changes u := by
  induction h with
  | refl => exact .refl
  | @next stops u b rest _ hp hr ih =>
    have htaken : u.Changes { u with ready := rest } := (Change.taken hr).changes hp
    have hvisit : u.playback.skipping = true → b.step = .visit :=
      fun hs => ih.straight ht hs b (hr ▸ List.mem_cons_self)
    exact (ih.trans htaken).trans (changes_advance _ b hp hvisit)

/-- A run goes change by change to its end. -/
theorem changes_run {fuel : Nat} {r : Playback β × World β} (ht : t.Straight)
    (h : t.run fuel = some r) : ∃ u, t.Changes u ∧ r = u.view ∧
      (u.ready = [] ∨ u.playback.phase ≠ .running) := by
  obtain ⟨stops, u, hu, hr, hover⟩ := works_of_run h
  exact ⟨u, changes_of_works ht hu, hr, hover⟩

end Turn

end Cutscene
