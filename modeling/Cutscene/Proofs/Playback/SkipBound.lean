import Cutscene.Behaviour.Builtin
import Cutscene.Proofs.Playback.Calls
import Cutscene.Proofs.Playback.Protocol

/-!
# Every skip comes to its end

A skip counts a hop for every branch that it takes up, and takes up nothing but branches that arrive
at nodes, so that the limit on hops is a limit on everything else: `skip_completes` says that the
call returns with the playback finished, that it has skipped no more nodes than there are hops and
run none, and that observers have heard of one end. `Turn.Forward` counts the hops between two
turns, `Turn.exists_run_of_skipping` is the induction on the hops that are left.
-/

namespace Cutscene

variable {β : Type}

namespace Turn

/-- The hops that a skip may take. -/
def hopLimit (t : Turn β) : Nat := t.playback.nodes.length * max t.world.config.hopFactor 1

/-! ### Counting hops -/

/-- The run has gone on calmly, and a number of hops have been counted meanwhile. -/
structure Forward (t : Turn β) (hops : Nat) (u : Turn β) : Prop where
  calm : t.Calm u
  hops_eq : u.playback.hops = t.playback.hops + hops
  length_eq : u.playback.nodes.length = t.playback.nodes.length

theorem Forward.trans {t u v : Turn β} {m n : Nat} (h : t.Forward m u) (h' : u.Forward n v) :
    t.Forward (m + n) v where
  calm := h.calm.trans h'.calm
  hops_eq := by rw [h'.hops_eq, h.hops_eq, Nat.add_assoc]
  length_eq := h'.length_eq.trans h.length_eq

theorem forward_refl (t : Turn β) : t.Forward 0 t := ⟨.refl t, rfl, rfl⟩

theorem forward_of_modifyNode {t u : Turn β} {index : Nat} {f : Node β → Node β}
    (hc : t.Calm u) (hp : u.playback = t.playback.modifyNode index f) : t.Forward 0 u := by
  refine ⟨hc, ?_, ?_⟩
  · rw [hp]
    rfl
  · rw [hp]
    exact List.length_modify ..

theorem forward_endingAt (t : Turn β) (node : Node β) (output : Int) :
    t.Forward 0 (t.endingAt node output).1 := by
  refine ⟨t.calm_endingAt node output, ?_, ?_⟩
  all_goals
    unfold endingAt
    split <;> rfl

theorem forward_follow (t : Turn β) (index : Nat) (ending : Ending) :
    t.Forward 0 (t.follow index ending).1 := by
  refine ⟨t.calm_follow index ending, ?_, ?_⟩ <;>
    cases ending <;> simp only [follow] <;> try rfl
  all_goals split_ifs <;> rfl

theorem forward_followAll (t : Turn β) (index : Nat) (endings : List Ending) :
    t.Forward 0 (t.followAll index endings).1 := by
  induction endings generalizing t with
  | nil => exact t.forward_refl
  | cons ending rest ih =>
    have hf := t.forward_follow index ending
    rw [followAll]
    rcases h : t.follow index ending with ⟨u, _ | b⟩ <;> rw [h] at hf <;> dsimp only
    · exact hf.trans (ih u)
    · have htake : u.Forward 0 (if b.wake = .now then u.push b else u.defer b) := by
        split_ifs
        · exact ⟨u.calm_push b, rfl, rfl⟩
        · exact ⟨u.calm_defer b, rfl, rfl⟩
      exact (hf.trans htake).trans (ih _)

/-- The limit only depends on what a run leaves alone. -/
theorem Forward.hopLimit_eq {t u : Turn β} {hops : Nat} (h : t.Forward hops u) :
    u.hopLimit = t.hopLimit := by
  unfold hopLimit
  rw [h.length_eq, h.calm.world.config]

/-! ### A run that goes on or is over -/

/-- The run has gone on, or has come to its end by itself. -/
inductive GoesOn (t : Turn β) (u : Turn β) : Prop
  | going (h : t.Forward 0 u)
  | ended {v : Turn β} (h : t.Forward 0 v) (hu : u = v.endRun)

theorem GoesOn.of_forward {t u v : Turn β} (h : t.Forward 0 u) (h' : u.GoesOn v) : t.GoesOn v := by
  cases h' with
  | going hv => exact .going (h.trans hv)
  | ended hv hu => exact .ended (h.trans hv) hu

theorem goesOn_settle {t : Turn β} (h : t.playback.pauseRequested = false) : t.GoesOn t.settle := by
  unfold settle
  rw [h, Bool.false_and, if_neg Bool.false_ne_true]
  split_ifs
  · exact .going t.forward_refl
  · exact .ended t.forward_refl rfl

variable [Behaviour β]

theorem forward_endings (t : Turn β) (index : Nat) (node : Node β) :
    t.Forward 0 (t.endings index node).1 := by
  unfold endings
  split
  · exact t.forward_refl
  · rename_i b hb
    split_ifs
    · exact t.forward_refl
    · by_cases h : Behaviour.outputs b = 0
      · rw [resolve_of_outputs_eq_zero t index node h]
        exact t.forward_refl
      · cases hm : t.recalled? node b with
        -- A memo is used up, and nobody is asked.
        | some output =>
          have hrecall : t.Forward 0 (t.recalled index) :=
            forward_of_modifyNode (t.calm_recalled index) rfl
          rw [resolve_of_recalled index h hm]
          exact hrecall.trans (forward_endingAt _ node output)
        -- The behaviour is asked. That is no hop.
        | none =>
          have hchoose : t.Forward 0 (t.chosen index node b) :=
            forward_of_modifyNode (t.calm_chosen index node b) rfl
          rw [resolve_of_choice index h hm]
          exact hchoose.trans (forward_endingAt _ node _)

theorem goesOn_leave {t : Turn β} (h : t.playback.pauseRequested = false) (index : Nat)
    (node : Node β) : t.GoesOn (t.leave index node) := by
  have hforward := (t.forward_endings index node).trans
    (forward_followAll _ index (t.endings index node).2)
  unfold leave
  rcases hf : (t.endings index node).1.followAll index (t.endings index node).2 with ⟨u, _ | _⟩ <;>
    rw [hf] at hforward
  · have hsettle : u.GoesOn u.settle := goesOn_settle (hforward.calm.pauseRequested.trans h)
    exact .of_forward hforward hsettle
  · exact .going hforward

theorem goesOn_finish {t : Turn β} (h : t.playback.pauseRequested = false) (index : Nat) :
    t.GoesOn (t.finish index) := by
  cases hn : t.playback.nodes[index]? with
  | none =>
    rw [finish_of_none hn]
    exact goesOn_settle h
  | some node =>
    have hrest : t.Forward 0 (t.rest index) := forward_of_modifyNode (t.calm_rest index) rfl
    rw [finish_of_following hn h]
    exact .of_forward hrest (goesOn_leave (t := t.rest index) h index node)

/-! ### A branch of a skip -/

omit [Behaviour β] in
/-- A hop within the limit counts; one beyond it kills the playback. -/
theorem hop_of_skipping {t : Turn β} (hs : t.playback.skipping = true)
    (hlimit : t.hopLimit < UInt64.size) :
    t.hop.2 = true ∧ t.playback.hops < t.hopLimit ∧ t.Forward 1 t.hop.1 ∧
        t.hop.1.world = t.world ∨
      t.hop.2 = false ∧ ∃ u, t.Calm u ∧ u.world.calls = t.world.calls ∧
        t.hop.1.view = u.playback.kill u.world := by
  have hmod : t.hopLimit % UInt64.size = t.hopLimit := Nat.mod_eq_of_lt hlimit
  unfold hopLimit at hmod hlimit ⊢
  unfold hop
  simp only [hs, if_true, hmod]
  split_ifs with hover
  · refine Or.inr ⟨rfl, { t with
      playback := { t.playback with hops := t.playback.hops + 1 }
      world := t.world.notice .hopLimitExceeded }, ?_, World.calls_notice _ _, ?_⟩
    · exact ⟨rfl, rfl, rfl, rfl, t.world.quiet_notice _⟩
    · simp only [hs, view]
  · exact Or.inl ⟨rfl, by omega, ⟨⟨rfl, rfl, hs.symm, rfl, .refl _⟩, rfl, rfl⟩, rfl⟩

/-- Calls of one hop: at most one node is skipped, and none is run. -/
structure AreOfHop (calls : List (Call β)) : Prop where
  skips : (calls.filter (·.form = .skip)).length ≤ 1
  forms : ∀ c ∈ calls, c.form = .skip ∨ c.form = .choose

omit [Behaviour β] in
theorem areOfHop_nil : AreOfHop ([] : List (Call β)) :=
  ⟨Nat.zero_le 1, fun _ hc => absurd hc List.not_mem_nil⟩

theorem areOfHop_asked (t u : Turn β) (index : Nat) (b : β) :
    AreOfHop (t.call .skip index b :: u.asked index) := by
  have hasked : (u.asked index).filter (·.form = .skip) = [] := by
    rw [List.filter_eq_nil_iff]
    intro c hc
    rw [u.form_of_mem_asked hc]
    simp
  refine ⟨?_, fun c hc => ?_⟩
  · rw [List.filter_cons_of_pos (by simp [call]), hasked]
    exact Nat.le_refl 1
  · rcases List.mem_cons.mp hc with rfl | hc
    · exact Or.inl rfl
    · exact Or.inr (u.form_of_mem_asked hc)

/-- What a skip does at a node: it goes on one hop further, or is over. -/
theorem visit_of_skipping {t : Turn β} (hs : t.playback.skipping = true)
    (hpause : t.playback.pauseRequested = false) (hhop : t.hop.2 = true)
    (hforward : t.Forward 1 t.hop.1) (hworld : t.hop.1.world = t.world) (index : Nat) :
    (∃ calls, (t.visit index).world.calls = t.world.calls ++ calls ∧ AreOfHop calls) ∧
      t.hop.1.GoesOn (t.visit index) := by
  have hpause' : t.hop.1.playback.pauseRequested = false :=
    hforward.calm.pauseRequested.trans hpause
  cases hn : t.hop.1.playback.nodes[index]? with
  | none =>
    -- Nobody is called where there is no node.
    rw [visit_of_none hhop hn]
    refine ⟨⟨[], ?_, areOfHop_nil⟩, goesOn_settle hpause'⟩
    rw [calls_settle, hworld, List.append_nil]
  | some node =>
    cases hr : node.isRunnable with
    | false =>
      -- Nobody is called at a node that is passed over.
      rw [visit_of_not_runnable hhop hn (isRunnable_eq_false hr)]
      refine ⟨⟨[], ?_, areOfHop_nil⟩, .going ⟨calm_push _ _, rfl, rfl⟩⟩
      rw [List.append_nil, ← hworld]
      rfl
    | true =>
      obtain ⟨he, hsome⟩ := Bool.and_eq_true_iff.mp hr
      obtain ⟨b, hb⟩ := Option.isSome_iff_exists.mp hsome
      -- The hop has not ended the skip, so the node is skipped.
      have hs' : t.hop.1.playback.skipping = true := hforward.calm.skipping.trans hs
      rw [visit_of_runnable hhop hn he hb, enter_of_skipping hs']
      have hcalled := t.hop.1.calm_called .skip index (t.hop.1.assigned b)
        (t.hop.1.skipOutcome index (t.hop.1.assigned b)) false
      have hgo := goesOn_finish (t := t.hop.1.called .skip index (t.hop.1.assigned b)
        (t.hop.1.skipOutcome index (t.hop.1.assigned b)) false) hpause' index
      refine ⟨⟨_, ?_, areOfHop_asked t.hop.1 (t.hop.1.called .skip index (t.hop.1.assigned b)
        (t.hop.1.skipOutcome index (t.hop.1.assigned b)) false) index (t.hop.1.assigned b)⟩, ?_⟩
      · rw [calls_finish, calls_called, hworld, List.append_assoc]
        rfl
      · exact .of_forward (forward_of_modifyNode hcalled rfl) hgo

/-! ### A whole skip -/

/-- How a skip of a playback ends that may take a number of hops more. -/
structure SkipsTo (id : Nat) (w : World β) (hops : Nat) (s : Playback β × World β) : Prop where
  finished : s.1.phase = .finished ∧ s.1.pending = []
  ends : ∃ kinds, s.2.eventsOf id = w.eventsOf id ++ kinds ∧ kinds.countP (·.isEnd) = 1
  calls : ∃ calls, s.2.calls = w.calls ++ calls ∧
    (calls.filter (·.form = .skip)).length ≤ hops ∧ ∀ c ∈ calls, c.form = .skip ∨ c.form = .choose

omit [Behaviour β] in
/-- The hop before counts as well. -/
theorem SkipsTo.of_hop {id hops : Nat} {w w' : World β} {s : Playback β × World β}
    (h : SkipsTo id w' hops s) (hw : w.Quiet w')
    (hcalls : ∃ calls, w'.calls = w.calls ++ calls ∧ AreOfHop calls) :
    SkipsTo id w (hops + 1) s := by
  obtain ⟨hfinished, ⟨kinds, hevents, hends⟩, more, hmore, hskips, hforms⟩ := h
  obtain ⟨calls, hcalls, hone, hform⟩ := hcalls
  refine ⟨hfinished, ⟨kinds, ?_, hends⟩, calls ++ more, ?_, ?_, fun c hc => ?_⟩
  · rw [hevents, hw.events]
  · rw [hmore, hcalls, List.append_assoc]
  · rw [List.filter_append, List.length_append]
    omega
  · exact (List.mem_append.mp hc).elim (hform c) (hforms c)

omit [Behaviour β] in
/-- Nor does it matter what is heard before the first hop, short of an end. -/
theorem SkipsTo.of_opening {id hops : Nat} {w w' : World β} {s : Playback β × World β}
    (h : SkipsTo id w' hops s)
    (hevents : ∃ kinds, w'.eventsOf id = w.eventsOf id ++ kinds ∧ kinds.countP (·.isEnd) = 0)
    (hcalls : w'.calls = w.calls) : SkipsTo id w hops s := by
  obtain ⟨hfinished, ⟨kinds, hkinds, hends⟩, calls, hmore, hskips, hforms⟩ := h
  obtain ⟨opening, hopening, hnone⟩ := hevents
  refine ⟨hfinished, ⟨opening ++ kinds, ?_, ?_⟩, calls, hmore.trans (by rw [hcalls]), hskips,
    hforms⟩
  · rw [hkinds, hopening, List.append_assoc]
  · rw [List.countP_append, hnone, hends]

theorem countP_isEnd_closing (conversation : Option String) :
    (closing conversation).countP (·.isEnd) = 1 := by
  unfold closing
  cases conversation <;> rfl

omit [Behaviour β] in
theorem skipsTo_endRun {v : Turn β} {w : World β} (hw : w.Quiet v.world)
    (hcalls : ∃ calls, v.endRun.world.calls = w.calls ++ calls ∧ AreOfHop calls) (hops : Nat) :
    SkipsTo v.playback.id w (hops + 1) v.endRun.view := by
  obtain ⟨calls, hcalls, hone, hforms⟩ := hcalls
  refine ⟨⟨rfl, rfl⟩, ⟨closing v.playback.conversation, ?_, countP_isEnd_closing _⟩, calls, hcalls,
    by omega, hforms⟩
  refine (v.eventsOf_endRun v.playback.id).trans ?_
  rw [if_pos rfl, hw.events]

omit [Behaviour β] in
theorem skipsTo_kill {p : Playback β} {w w' : World β} (hw : w.Quiet w')
    (hp : p.isActive = true) (hcalls : w'.calls = w.calls) (hops : Nat) :
    SkipsTo p.id w hops (p.kill w') := by
  refine ⟨⟨rfl, rfl⟩, ⟨[.ended true], ?_, rfl⟩, [], ?_, Nat.zero_le _,
    fun _ hc => absurd hc List.not_mem_nil⟩
  · rw [← hw.events]
    simp only [Playback.kill, hp, if_true]
    rw [World.eventsOf_emit_self, World.eventsOf_withRegistry]
  · rw [World.calls_kill, hcalls, List.append_nil]

/-- A skip under way comes to its end within the hops that are left, or is killed by the branch
that is beyond them. -/
theorem exists_run_of_skipping {hops fuel : Nat} {t : Turn β} (h : t.Sound)
    (hrun : t.playback.phase = .running) (hs : t.playback.skipping = true)
    (hlimit : t.hopLimit < UInt64.size) (hleft : t.playback.hops + hops = t.hopLimit)
    (hfuel : hops < fuel) : ∃ s, t.run fuel = some s ∧ SkipsTo t.playback.id t.world hops s := by
  induction fuel generalizing t hops with
  | zero => omega
  | succ fuel ih =>
    -- Nothing waits, so there is a branch to take up, and it arrives at a node.
    obtain ⟨hpending, hpause, hvisit⟩ := h.skips hrun hs
    obtain ⟨b, rest, hready⟩ := List.exists_cons_of_ne_nil
      ((h.waits hrun).resolve_right (not_not_intro hpending))
    have hadvance : ∀ u : Turn β, u.advance b = u.visit b.index := fun u => by
      rw [advance, hvisit b (hready ▸ List.mem_cons_self)]
    have hsound := sound_advance h hrun hready
    rw [run_of_ready_eq_cons hrun hready]
    rw [hadvance] at hsound ⊢
    rcases hop_of_skipping (t := { t with ready := rest }) hs hlimit with
      ⟨hhop, hlt, hforward, hworld⟩ | ⟨hhop, u, hcalm, hcalls, hkill⟩
    · obtain ⟨hcalls, hgo⟩ := visit_of_skipping (t := { t with ready := rest }) hs hpause hhop
        hforward hworld b.index
      have hlt : t.playback.hops < t.hopLimit := hlt
      obtain ⟨hops, rfl⟩ : ∃ k, hops = k + 1 := ⟨hops - 1, by omega⟩
      cases hgo with
      | going hgo =>
        have hnext := hforward.trans hgo
        have hhops : (({ t with ready := rest } : Turn β).visit b.index).playback.hops =
            t.playback.hops + 1 := hnext.hops_eq
        have hlimit_eq : (({ t with ready := rest } : Turn β).visit b.index).hopLimit =
            t.hopLimit := hnext.hopLimit_eq
        have hid : (({ t with ready := rest } : Turn β).visit b.index).playback.id =
            t.playback.id := congrArg Playback.Identity.id hnext.calm.identity
        obtain ⟨s, hr, hto⟩ := @ih hops _ hsound (hnext.calm.phase.trans hrun)
          (hnext.calm.skipping.trans hs) (hlimit_eq ▸ hlimit) (by omega) (by omega)
        rw [hid] at hto
        exact ⟨s, hr, hto.of_hop hnext.calm.world hcalls⟩
      | ended hover hu =>
        rename_i v
        have hnext := hforward.trans hover
        have hid : v.playback.id = t.playback.id :=
          congrArg Playback.Identity.id hnext.calm.identity
        rw [hu] at hcalls ⊢
        rw [run_of_not_running (by simp [endRun]), ← hid]
        exact ⟨_, rfl, skipsTo_endRun hnext.calm.world hcalls hops⟩
    · have hview : ({ t with ready := rest } : Turn β).hop.1.playback =
          (u.playback.kill u.world).1 := congrArg Prod.fst hkill
      have hactive : u.playback.isActive = true := by
        rw [Playback.isActive, hcalm.phase]
        simp [hrun]
      have hid : u.playback.id = t.playback.id :=
        congrArg Playback.Identity.id hcalm.identity
      rw [visit_of_killed hhop, run_of_not_running (by rw [hview]; simp [Playback.kill]), hkill,
        ← hid]
      exact ⟨_, rfl, skipsTo_kill hcalm.world hactive hcalls hops⟩

end Turn

/-! ### Skipping a playback -/

namespace Playback

theorem skippingFrom_length (p : Playback β) (start : Nat) :
    (p.skippingFrom start).nodes.length = p.nodes.length := by
  unfold skippingFrom
  split_ifs <;> simp [clearBranches, forgetChoices]

theorem skippingFrom_id (p : Playback β) (start : Nat) : (p.skippingFrom start).id = p.id :=
  congrArg Identity.id (p.identity_skippingFrom start)

/-- Nothing is called before the first branch is taken up. -/
theorem calls_skipTurn (p : Playback β) (w : World β) (start : Nat) :
    (p.skipTurn w start).world.calls = w.calls := by
  refine (World.calls_emit _ _ _).trans ?_
  split_ifs
  · rfl
  · exact World.calls_emit _ _ _

/-- What is heard of a skip before the first branch is taken up. -/
theorem eventsOf_skipTurn (p : Playback β) (w : World β) (start : Nat) :
    (p.skipTurn w start).world.eventsOf p.id = w.eventsOf p.id ++
      if p.isActive then [.skipped start] else [.began start, .skipped start] := by
  have hid := p.skippingFrom_id start
  unfold skipTurn
  dsimp only
  split_ifs
  · rw [World.eventsOf_emit, if_pos hid]
    rfl
  · rw [World.eventsOf_emit, World.eventsOf_emit, if_pos hid, if_pos hid, List.append_assoc]
    rfl

variable [Behaviour β]

/-- A skip that begins at a node comes to its end within the limit on hops. -/
theorem exists_skip (p : Playback β) (w : World β) {start : Nat} (hstart : start < p.nodes.length)
    (hlimit : p.nodes.length * max w.config.hopFactor 1 < UInt64.size) :
    ∃ s, (∀ fuel, p.nodes.length * max w.config.hopFactor 1 < fuel →
        p.skip fuel w start = some s) ∧
      Turn.SkipsTo p.id w (p.nodes.length * max w.config.hopFactor 1) s := by
  have hsound := (p.working_skipTurn w start).sound (Or.inl (List.cons_ne_nil _ _))
  have hconfig : (p.skipTurn w start).world.config = w.config := (p.stage_skipTurn w start).config
  have hhopLimit : (p.skipTurn w start).hopLimit =
      p.nodes.length * max w.config.hopFactor 1 := by
    unfold Turn.hopLimit
    rw [hconfig]
    exact congrArg (· * max w.config.hopFactor 1) (p.skippingFrom_length start)
  -- No hop is counted yet.
  have hleft : (p.skipTurn w start).playback.hops + (p.skipTurn w start).hopLimit =
      (p.skipTurn w start).hopLimit := Nat.zero_add _
  have hid : (p.skipTurn w start).playback.id = p.id := p.skippingFrom_id start
  obtain ⟨s, hr, hto⟩ := Turn.exists_run_of_skipping hsound rfl rfl
    (by rw [hhopLimit]; exact hlimit) hleft (Nat.lt_succ_self _)
  refine ⟨s, fun fuel hfuel => ?_, ?_⟩
  · rw [skip_eq, if_neg (Nat.not_le.mpr hstart)]
    exact Turn.run_mono hr (by rw [hhopLimit]; exact hfuel)
  · rw [hid, hhopLimit] at hto
    exact hto.of_opening ⟨_, p.eventsOf_skipTurn w start, by split_ifs <;> rfl⟩
      (p.calls_skipTurn w start)

/-- Whatever a playback was doing, whatever its nodes are and however they choose, a skip returns
with the playback finished. It takes up at most as many nodes as it may take hops, which it only
skips or asks for an output, and if it starts at a node it tells of one end. -/
theorem skip_completes (p : Playback β) (w : World β) (start : Nat)
    (hlimit : p.nodes.length * max w.config.hopFactor 1 < UInt64.size) :
    ∃ s : Playback β × World β,
      (∀ fuel, p.nodes.length * max w.config.hopFactor 1 < fuel →
        p.skip fuel w start = some s) ∧
      s.1.phase = .finished ∧ s.1.pending = [] ∧
      ((w.since s.2 p.id).calls.filter (·.form = .skip)).length ≤
        p.nodes.length * max w.config.hopFactor 1 ∧
      (∀ c ∈ (w.since s.2 p.id).calls, c.form = .skip ∨ c.form = .choose) ∧
      (start < p.nodes.length → (w.since s.2 p.id).events.countP (·.isEnd) = 1) ∧
      ∀ id, id ≠ p.id → s.2.eventsOf id = w.eventsOf id := by
  by_cases hstart : start < p.nodes.length
  · obtain ⟨s, hskip, ⟨hfinished, hpending⟩, ⟨kinds, hkinds, hends⟩, calls, hcalls, hskips,
      hforms⟩ := p.exists_skip w hstart hlimit
    have hevents : (w.since s.2 p.id).events = kinds := World.news_of_eventsOf_eq_append hkinds
    have hnew : (w.since s.2 p.id).calls = calls := by
      rw [World.since, hcalls, List.drop_left]
    rw [← hnew] at hskips hforms
    rw [← hevents] at hends
    refine ⟨s, hskip, hfinished, hpending, hskips, hforms, fun _ => hends, fun id hid => ?_⟩
    obtain ⟨heard, hheard⟩ := heard_of_stages (stages_skip (hskip _ (Nat.lt_succ_self _)))
    rw [hheard.events, if_neg (Ne.symm hid), List.append_nil]
  · -- There is no such node to start from.
    have hnew : (w.since (p.kill w).2 p.id).calls = [] := by
      rw [World.since, World.calls_kill, List.drop_length]
    refine ⟨p.kill w, fun fuel _ => ?_, rfl, rfl, ?_, ?_, fun h => absurd h hstart, ?_⟩
    · rw [skip_eq, if_pos (Nat.le_of_not_lt hstart)]
    · rw [hnew]
      exact Nat.zero_le _
    · rw [hnew]
      exact fun c hc => absurd hc List.not_mem_nil
    · exact (Stage.kill p w).others

/-- A comment that leads back to itself is skipped until the limit is reached. -/
theorem skip_completes_circling :
    ∃ s, circling.skip 7 {} 1 = some s ∧ s.1.phase = .finished ∧
      ((World.since {} s.2 0).calls.filter (·.form = .skip)).length ≤ 6 := by
  obtain ⟨s, hskip, hfinished, -, hskips, -⟩ := skip_completes circling {} 1 (by decide)
  exact ⟨s, hskip 7 (by decide), hfinished, hskips⟩

end Playback

end Cutscene
