import Cutscene.Proofs.Playback.Asking
import Cutscene.Proofs.Playback.Leading
import Cutscene.Proofs.Playback.Skip

/-!
# Skips, place by place

As long as nodes take one output at a time a skip has one branch, which comes to one place after the
other (`Turn.Striding`). At each of them a hop is counted, and as long as that is within the limit
the place leads on to another one that may come after it, or the skip is over
(`Turn.Striding.next`).
-/

namespace Cutscene

variable {β : Type}

namespace Turn

/-- The hops that a skip may take, as the program reckons them. -/
def hopCap (t : Turn β) : Nat := t.hopLimit % UInt64.size

/-- A turn with one more hop counted. -/
def hopped (t : Turn β) : Turn β :=
  { t with playback := { t.playback with hops := t.playback.hops + 1 } }

theorem hop_within {t : Turn β} (hs : t.playback.skipping = true) (h : t.playback.hops < t.hopCap) :
    t.hop = (t.hopped, true) := by
  unfold hopCap hopLimit at h
  simp only [hop, hopped, hs, if_true]
  rw [if_neg (by omega)]

theorem hop_beyond {t : Turn β} (hs : t.playback.skipping = true) (h : t.hopCap ≤ t.playback.hops) :
    t.hop.2 = false ∧ t.hop.1.playback.phase = .finished ∧ t.hop.1.playback.pending = [] ∧
      t.hop.1.world.calls = t.world.calls := by
  unfold hopCap hopLimit at h
  simp only [hop, hs, if_true]
  rw [if_pos (by omega)]
  exact ⟨rfl, rfl, rfl, (World.calls_kill _ _).trans (World.calls_notice _ _)⟩

/-- One branch is all that there is to a skip, and it arrives at a place. -/
structure Striding [Behaviour β] (S : Nat → β → Prop) (p : Playback β) (t : Turn β)
    (index : Nat) : Prop where
  running : t.playback.phase = .running
  skipping : t.playback.skipping = true
  notPausing : t.playback.pauseRequested = false
  pending : t.playback.pending = []
  ready : ∃ b, t.ready = [b] ∧ b.step = .visit ∧ b.index = index
  samePlan : p.SamePlan t.playback
  inherits : t.playback.Inherits S

variable [Behaviour β] {S : Nat → β → Prop} {p : Playback β} {t : Turn β} {index : Nat}

/-- What a node of a skip leads on to: a place that may come after it, or the end of the run. -/
inductive LeadsOn (S : Nat → β → Prop) (p : Playback β) (t : Turn β) (index : Nat) :
    Turn β → Prop
  | ended {v : Turn β} (h : t.Forward 0 v) : LeadsOn S p t index v.endRun
  | onward {v : Turn β} {c : Branch} (h : t.Forward 0 v) (hchanges : t.Changes v)
    (hc : c.step = .visit) (hl : p.MayLead S index c.index) (hready : v.ready = [c])
    (hpending : v.playback.pending = []) : LeadsOn S p t index v

theorem LeadsOn.of_forward {t u v : Turn β} (h : t.Forward 0 u) (hchanges : t.Changes u)
    (hl : LeadsOn S p u index v) : LeadsOn S p t index v := by
  cases hl with
  | ended hv => exact .ended (h.trans hv)
  | onward hv hmore hc hl hready hpending =>
    exact .onward (h.trans hv) (hchanges.trans hmore) hc hl hready hpending

theorem leadsOn_finish (hunforked : ∀ i b, S i b → Behaviour.fansOut b = false)
    (hrun : t.playback.phase = .running) (hskip : t.playback.skipping = true)
    (hpause : t.playback.pauseRequested = false) (halone : t.inFlight = [])
    (hplan : p.SamePlan t.playback) {node : Node β} {b : β}
    (hn : t.playback.nodes[index]? = some node) (hb : node.behaviour = some b) (hS : S index b)
    (hr : node.isRunnable = true) : LeadsOn S p t index (t.finish index) := by
  -- A node that is not forked follows one ending.
  obtain ⟨ending, hending, hfinish⟩ := finish_of_single hn hpause fun b' hb' => by
    obtain rfl := Option.some.inj (hb.symm.trans hb')
    exact hunforked _ _ hS
  have hforward := t.forward_resolved index node
  have hchanges := changes_resolved hrun hn
  have halone' := (t.inFlight_resolved index node).trans halone
  have hskip' := hforward.calm.skipping.trans hskip
  have hplan' := hplan.trans hchanges.samePlan
  have hfinished : t.Changes (t.finish index) := changes_finish t index hrun
  rw [hfinish] at hfinished ⊢
  rcases depart_cases (hforward.calm.phase.trans hrun) (hforward.calm.pauseRequested.trans hpause)
      halone' index ending with ⟨-, v, hv, -, hover⟩ | ⟨c, hstep, htarget, hwake, honward⟩
  · -- The ending leads nowhere.
    rw [hover]
    exact .ended (hforward.trans hv)
  · -- The ending leads to a node, and a skip holds nothing back.
    rw [if_pos (hwake.mpr (Or.inl hskip'))] at honward
    rw [honward] at hfinished ⊢
    obtain ⟨hready, hpending⟩ := List.append_eq_nil_iff.mp halone'
    have hpush : (t.resolved index node).Forward 0 ((t.resolved index node).push c) :=
      ⟨calm_push _ _, rfl, rfl⟩
    have hleads : p.MayLead S index c.index := by
      rw [hplan'.target?_eq] at htarget
      -- Only an ending of the node itself leads anywhere.
      rcases mem_of_mem_endings (hending ▸ List.mem_singleton_self ending) with
        rfl | ⟨hmem, b', hb', houtputs⟩
      · simp [Playback.target?] at htarget
      · obtain rfl := Option.some.inj (hb.symm.trans hb')
        have hplace := Playback.plan_of_getElem? hn
        rw [hplan.plan, hr] at hplace
        exact .left hplace hS houtputs hmem htarget
    refine .onward (hforward.trans hpush) hfinished hstep hleads ?_ hpending
    simp only [push, hready, List.nil_append]

/-- What a skip calls at a place, in or beyond its hops: nothing, or the node is skipped and may be
asked. -/
theorem calls_visit_of_skipping (hs : t.playback.skipping = true) (index : Nat) :
    (t.visit index).world.calls = t.world.calls ∨
      ∃ node b, t.hop.1.playback.nodes[index]? = some node ∧ node.behaviour = some b ∧
        t.hop.2 = true ∧ (t.visit index).world.calls = t.world.calls ++
          t.hop.1.call .skip index (t.hop.1.assigned b) :: (t.hop.1.called .skip index
            (t.hop.1.assigned b) (t.hop.1.skipOutcome index (t.hop.1.assigned b)) false).asked
              index := by
  have hworld : t.hop.1.world.calls = t.world.calls := by
    by_cases hcap : t.playback.hops < t.hopCap
    · exact congrArg (·.1.world.calls) (hop_within hs hcap)
    · -- A playback that is killed calls no behaviour either.
      exact (hop_beyond hs (Nat.le_of_not_lt hcap)).2.2.2
  rcases t.hop_cases with ⟨hhop, hcalm, -⟩ | ⟨hhop, -⟩
  · cases hn : t.hop.1.playback.nodes[index]? with
    | none =>
      rw [visit_of_none hhop hn, calls_settle]
      exact Or.inl hworld
    | some node =>
      cases hr : node.isRunnable with
      | false =>
        rw [visit_of_not_runnable hhop hn (isRunnable_eq_false hr)]
        exact Or.inl hworld
      | true =>
        obtain ⟨he, hsome⟩ := Bool.and_eq_true_iff.mp hr
        obtain ⟨b, hb⟩ := Option.isSome_iff_exists.mp hsome
        refine Or.inr ⟨node, b, rfl, hb, hhop, ?_⟩
        rw [visit_of_runnable hhop hn he hb, enter_of_skipping (hcalm.skipping.trans hs),
          calls_finish, calls_called, hworld, List.append_assoc]
        rfl
  · rw [visit_of_killed hhop]
    exact Or.inl hworld

/-- A place of a skip, with the hop to it counted: its node is skipped and leads on, or it is passed
over, or there is none and the run is over. -/
theorem leadsOn_visit (hS : Heritable S) (hunforked : ∀ i b, S i b → Behaviour.fansOut b = false)
    (hrun : t.playback.phase = .running) (hskip : t.playback.skipping = true)
    (hpause : t.playback.pauseRequested = false) (halone : t.inFlight = [])
    (hplan : p.SamePlan t.playback) (hinherits : t.playback.Inherits S) {u : Turn β}
    (hhop : u.hop = (t, true)) (index : Nat) : LeadsOn S p t index (u.visit index) := by
  have hhop₁ : u.hop.1 = t := congrArg Prod.fst hhop
  have hhop₂ : u.hop.2 = true := congrArg Prod.snd hhop
  cases hn : t.playback.nodes[index]? with
  | none =>
    -- Behind the last node the only branch is lost, and so the run is over.
    rw [visit_of_none hhop₂ (hhop₁ ▸ hn), hhop₁, settle_of_alone hrun hpause halone]
    exact .ended t.forward_refl
  | some node =>
    cases hr : node.isRunnable with
    | false =>
      rw [visit_of_not_runnable hhop₂ (hhop₁ ▸ hn) (isRunnable_eq_false hr), hhop₁]
      obtain ⟨hready, hpending⟩ := List.append_eq_nil_iff.mp halone
      have hplace := Playback.plan_of_getElem? hn
      rw [hplan.plan, hr] at hplace
      -- A node that is passed over leads to the next one.
      have hpushed :
          t.Changes (t.push { index := index + 1, step := .visit, origin := some index }) :=
        (Change.pushed ⟨rfl, rfl, fun _ horigin => by simp at horigin⟩).changes hrun
      have hrow : (t.push { index := index + 1, step := .visit, origin := some index }).ready =
          [{ index := index + 1, step := .visit, origin := some index }] := by
        simp only [push, hready, List.nil_append]
      exact .onward ⟨calm_push _ _, rfl, rfl⟩ hpushed rfl (.passed hplace) hrow hpending
    | true =>
      obtain ⟨he, hsome⟩ := Bool.and_eq_true_iff.mp hr
      obtain ⟨b, hb⟩ := Option.isSome_iff_exists.mp hsome
      rw [visit_of_runnable hhop₂ (hhop₁ ▸ hn) he hb, hhop₁, enter_of_skipping hskip]
      let v : Turn β :=
        t.called .skip index (t.assigned b) (t.skipOutcome index (t.assigned b)) false
      -- To skip the node comes first, and then it leads on.
      have hskipped : t.Changes v := (Change.skipped hn hb hskip).changes hrun
      have hforward : t.Forward 0 v := forward_of_modifyNode (calm_called t _ index _ _ _) rfl
      obtain ⟨n, hn', hb', hendings, -, henabled⟩ := exists_node_called hn .skip (t.assigned b)
        (t.skipOutcome index (t.assigned b)) false
      have hown : S index (t.skipOutcome index (t.assigned b)).behaviour :=
        hS.skip (inherits_assigned hS (hinherits.of_getElem? hn hb)) _ _
      have hleads : LeadsOn S p v index (v.finish index) :=
        leadsOn_finish hunforked hrun hskip hpause halone (hplan.trans hskipped.samePlan) hn' hb'
          hown (by simp [Node.isRunnable, henabled, he, hb'])
      exact hleads.of_forward hforward hskipped

/-- What comes of the next place of a skip. -/
inductive StridesOn (S : Nat → β → Prop) (p : Playback β) (t : Turn β) (index : Nat)
    (u : Turn β) : Prop
  /-- The hop is one too many. -/
  | killed (hhops : t.hopCap ≤ t.playback.hops)
    (hfinished : u.playback.phase = .finished ∧ u.playback.pending = [])
    (hevents : u.world.eventsOf t.playback.id = t.world.eventsOf t.playback.id ++ [.ended true])
  | ended {v : Turn β} (hhops : t.playback.hops < t.hopCap) (h : t.Forward 1 v)
    (hu : u = v.endRun)
  | onward {target : Nat} (hhops : t.playback.hops < t.hopCap) (h : t.Forward 1 u)
    (hl : p.MayLead S index target) (hn : Striding S p u target)

/-- A skip under way comes to its next place. -/
theorem Striding.next (hS : Heritable S) (hunforked : ∀ i b, S i b → Behaviour.fansOut b = false)
    (h : Striding S p t index) :
    StridesOn S p t index (({ t with ready := [] } : Turn β).visit index) := by
  let u : Turn β := { t with ready := [] }
  by_cases hcap : t.playback.hops < t.hopCap
  · have hhop : u.hop = (u.hopped, true) := hop_within h.skipping hcap
    have hcounted : t.Forward 1 u.hopped := ⟨⟨rfl, rfl, rfl, rfl, .refl _⟩, rfl, rfl⟩
    have hplan : p.SamePlan u.hopped.playback :=
      ⟨h.samePlan.graph, h.samePlan.settings, h.samePlan.plan⟩
    have hleads := leadsOn_visit hS hunforked (t := u.hopped) h.running h.skipping h.notPausing
      h.pending hplan h.inherits hhop index
    change StridesOn S p t index (u.visit index)
    generalize u.visit index = x at hleads
    cases hleads with
    | ended hforward => exact .ended hcap (hcounted.trans hforward) rfl
    | @onward _ c hforward hchanges hc hmay hready hpending =>
      have hfar := hcounted.trans hforward
      refine .onward hcap hfar hmay ?_
      exact
        { running := hfar.calm.phase.trans h.running
          skipping := hfar.calm.skipping.trans h.skipping
          notPausing := hfar.calm.pauseRequested.trans h.notPausing
          pending := hpending
          ready := ⟨c, hready, hc, rfl⟩
          samePlan := hplan.trans hchanges.samePlan
          inherits := hchanges.inherits hS h.inherits }
  · -- One hop more is one too many.
    have hbeyond : u.hopCap ≤ u.playback.hops := Nat.le_of_not_lt hcap
    obtain ⟨hfalse, hphase, hpending, -⟩ := hop_beyond (t := u) h.skipping hbeyond
    change StridesOn S p t index (u.visit index)
    rw [visit_of_killed hfalse]
    exact .killed hbeyond ⟨hphase, hpending⟩ (eventsOf_hop hfalse h.running).2

theorem Striding.run_zero (h : Striding S p t index) : t.run 0 = none := by
  obtain ⟨b, hready, -⟩ := h.ready
  exact run_zero_of_ready_eq_cons h.running hready

theorem Striding.run_succ (h : Striding S p t index) (fuel : Nat) :
    t.run (fuel + 1) = (({ t with ready := [] } : Turn β).visit index).run fuel := by
  obtain ⟨b, hready, hstep, rfl⟩ := h.ready
  rw [run_of_ready_eq_cons h.running hready, advance, hstep]

/-- A skip under way returns, for every place costs it one of the hops that are left. -/
theorem Striding.exists_run (hS : Heritable S)
    (hunforked : ∀ i b, S i b → Behaviour.fansOut b = false) (h : Striding S p t index) {left : Nat}
    (hleft : t.hopCap ≤ t.playback.hops + left) : ∃ r, t.run (left + 1) = some r := by
  induction left generalizing t index with
  | zero =>
    have hnext := h.next hS hunforked
    rw [h.run_succ]
    cases hnext with
    | killed _ hfinished => exact ⟨_, run_of_not_running (by simp [hfinished.1]) 0⟩
    -- Without a hop left only a skip that is killed is possible.
    | ended hhops | onward hhops => omega
  | succ left ih =>
    have hnext := h.next hS hunforked
    rw [h.run_succ]
    generalize ({ t with ready := [] } : Turn β).visit index = x at hnext
    cases hnext with
    | killed _ hfinished => exact ⟨_, run_of_not_running (by simp [hfinished.1]) _⟩
    | ended _ _ hover =>
      subst hover
      exact ⟨_, run_of_not_running (by simp [endRun]) _⟩
    | onward _ hforward _ hon =>
      -- One hop more and as many left: the limit is the same all along.
      refine ih hon ?_
      have hsame : x.hopCap = t.hopCap := congrArg (· % UInt64.size) hforward.hopLimit_eq
      have hcount := hforward.hops_eq
      omega

end Turn

/-- A skip may take the hops that the limit of the program allows. -/
theorem Playback.hopCap_skipTurn (p : Playback β) (w : World β) (start : Nat) :
    (p.skipTurn w start).hopCap = p.nodes.length * max w.config.hopFactor 1 % UInt64.size := by
  have hconfig : (p.skipTurn w start).world.config = w.config := (p.stage_skipTurn w start).config
  unfold Turn.hopCap Turn.hopLimit
  rw [hconfig]
  exact congrArg (· * max w.config.hopFactor 1 % UInt64.size) (p.skippingFrom_length start)

end Cutscene
