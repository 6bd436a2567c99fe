import Cutscene.Proofs.Playback.Change

/-!
# What a playback sees of the world around it

A turn goes by the time, the variables, the settings and the waiting commands of the world that it
is in. What has happened before and which records there are it does not see, but for the questions
of its behaviours whether a graph runs. Two turns that differ in such things alone therefore take
the same course if no such question tells them apart (`Turn.Unseen.run`): because no graph runs in
the one and not in the other, or because their behaviours do not ask.
-/

namespace Cutscene

variable {β : Type}

/-- What has happened in a world, latest first. -/
abbrev Past (β : Type) := List (Entry β)

namespace World

/-- The same world around another registry. -/
def withRegistry (w : World β) (registry : Registry) : World β := { w with registry }

/-- The same world around another registry, with more that has happened before. -/
def within (w : World β) (registry : Registry) (past : Past β) : World β :=
  { w with registry, journal := w.journal ++ past }

theorem within_nil (w : World β) (registry : Registry) :
    w.within registry [] = w.withRegistry registry := by
  simp [within, withRegistry]

variable (w : World β) (registry : Registry) (past : Past β)

theorem raise_within (command : Command) :
    (w.within registry past).raise command = (w.raise command).within registry past := by
  simp [raise, within]

theorem absorb_within (o : Outcome β) :
    (w.within registry past).absorb o = (w.absorb o).within registry past := by
  unfold absorb
  rw [noticeAll_eq, noticeAll_eq]
  simp [within]

theorem absorbChoice_within (c : Choice β) :
    (w.within registry past).absorbChoice c = (w.absorbChoice c).within registry past := by
  unfold absorbChoice
  rw [noticeAll_eq, noticeAll_eq]
  simp [within]

end World

theorem Playback.kill_within (p : Playback β) (w : World β) (registry : Registry) (past : Past β) :
    p.kill (w.within registry past) =
      ((p.kill w).1, (p.kill w).2.within (registry.drop p.id) past) := by
  unfold kill
  dsimp only
  split_ifs <;> rfl

theorem Playback.kill_withRegistry (p : Playback β) (w : World β) (registry : Registry) :
    p.kill (w.withRegistry registry) =
      ((p.kill w).1, (p.kill w).2.withRegistry (registry.drop p.id)) := by
  rw [← World.within_nil, kill_within, World.within_nil]

/-! ### Kinds of behaviours -/

section

variable [Behaviour β]

/-- A kind of behaviours that none of them leaves. -/
structure Enclosed (S : β → Prop) : Prop where
  assign : ∀ {b}, S b → ∀ parameters, S (Behaviour.assign parameters b)
  run : ∀ {b}, S b → ∀ ctx vars, S (Behaviour.run ctx vars b).behaviour
  skip : ∀ {b}, S b → ∀ ctx vars, S (Behaviour.skip ctx vars b).behaviour
  choose : ∀ {b}, S b → ∀ ctx vars, S (Behaviour.choose ctx vars b).behaviour

/-- No behaviour of a kind can tell one registry from the other. -/
structure Registry.Blends (S : β → Prop) (reg reg' : Registry) : Prop where
  run : ∀ {b}, S b → ∀ (ctx : Context) vars,
    Behaviour.run { ctx with isGraphRunning := reg'.isGraphRunning } vars b =
      Behaviour.run { ctx with isGraphRunning := reg.isGraphRunning } vars b
  skip : ∀ {b}, S b → ∀ (ctx : Context) vars,
    Behaviour.skip { ctx with isGraphRunning := reg'.isGraphRunning } vars b =
      Behaviour.skip { ctx with isGraphRunning := reg.isGraphRunning } vars b
  choose : ∀ {b}, S b → ∀ (ctx : Context) vars,
    Behaviour.choose { ctx with isGraphRunning := reg'.isGraphRunning } vars b =
      Behaviour.choose { ctx with isGraphRunning := reg.isGraphRunning } vars b

theorem enclosed_true : Enclosed fun _ : β => True :=
  ⟨fun _ _ => trivial, fun _ _ _ => trivial, fun _ _ _ => trivial, fun _ _ _ => trivial⟩

/-- Where the same graphs run, nobody can tell the difference. -/
theorem Registry.blends_of_eq (S : β → Prop) {reg reg' : Registry}
    (h : reg'.isGraphRunning = reg.isGraphRunning) : reg.Blends S reg' := by
  refine ⟨?_, ?_, ?_⟩ <;>
  · intro b _ ctx vars
    rw [h]

end

namespace Turn

/-- The same turn in the world around another registry, with more that has happened before. -/
def within (t : Turn β) (registry : Registry) (past : Past β) : Turn β :=
  { t with world := t.world.within registry past }

/-- Two turns differ in what is around them. As long as they run, their behaviours cannot tell
which of them they are in. -/
structure Unseen [Behaviour β] (S : β → Prop) (past : Past β) (t u : Turn β) : Prop where
  eq : u = t.within u.world.registry past
  blends : t.playback.phase = .running → t.world.registry.Blends S u.world.registry

variable {past : Past β} {registry : Registry}

/-! ### The ends of a run -/

theorem endRun_within (t : Turn β) (registry : Registry) (past : Past β) :
    (t.within registry past).endRun = t.endRun.within (registry.drop t.playback.id) past := by
  unfold endRun within
  dsimp only
  cases t.playback.conversation <;> rfl

variable [Behaviour β] {S : β → Prop} {t : Turn β}

theorem unseen_endRun (t : Turn β) (registry : Registry) (past : Past β) :
    t.endRun.Unseen S past (t.within registry past).endRun := by
  rw [endRun_within]
  exact ⟨rfl, fun h => by simp [endRun] at h⟩

theorem unseen_endPause (t : Turn β) (registry : Registry) (past : Past β) :
    t.endPause.Unseen S past (t.within registry past).endPause :=
  ⟨rfl, fun h => by simp [endPause] at h⟩

theorem unseen_settle (h : t.world.registry.Blends S registry) (past : Past β) :
    t.settle.Unseen S past (t.within registry past).settle := by
  unfold settle
  rw [show (t.within registry past).playback = t.playback from rfl,
    show (t.within registry past).ready = t.ready from rfl]
  split_ifs
  · exact ⟨rfl, fun _ => h⟩
  · exact t.unseen_endPause registry past
  · exact t.unseen_endRun registry past

/-! ### Endings -/

omit [Behaviour β] in
theorem follow_within (t : Turn β) (registry : Registry) (past : Past β) (index : Nat)
    (ending : Ending) : (t.within registry past).follow index ending =
      ((t.follow index ending).1.within registry past, (t.follow index ending).2) := by
  cases ending with
  | start graph =>
    by_cases hg : graph = t.playback.graph
    · simp only [follow, within, hg, if_true]
      rfl
    · simp only [follow, within, hg, if_false]
      rw [World.raise_within]
  | _ => rfl

omit [Behaviour β] in
theorem followAll_within (t : Turn β) (registry : Registry) (past : Past β) (index : Nat)
    (endings : List Ending) : (t.within registry past).followAll index endings =
      ((t.followAll index endings).1.within registry past, (t.followAll index endings).2) := by
  induction endings generalizing t with
  | nil => rfl
  | cons ending rest ih =>
    rw [followAll, followAll, follow_within]
    rcases t.follow index ending with ⟨u, _ | b⟩
    · exact ih u
    · dsimp only
      split_ifs
      · -- The branch goes on in this turn.
        exact congrArg (fun s : Turn β × Bool => (s.1, true)) (ih (u.push b))
      · -- The branch waits.
        exact congrArg (fun s : Turn β × Bool => (s.1, true)) (ih (u.defer b))

omit [Behaviour β] in
theorem endingAt_within (t : Turn β) (registry : Registry) (past : Past β) (node : Node β)
    (output : Int) : (t.within registry past).endingAt node output =
      ((t.endingAt node output).1.within registry past, (t.endingAt node output).2) := by
  unfold endingAt
  split <;> rfl

omit [Behaviour β] in
theorem called_within (t : Turn β) (registry : Registry) (past : Past β) (form : Call.Form)
    (index : Nat) (b : β) (o : Outcome β) (running : Bool) :
    (t.within registry past).called form index b o running =
      (t.called form index b o running).within registry past := by
  have hcall : ((t.within registry past).noteCall form index b).world =
      (t.noteCall form index b).world.within registry past := rfl
  unfold called
  rw [hcall, World.absorb_within]
  rfl

theorem runOutcome_within (h : t.world.registry.Blends S registry) (index : Nat) (running : Bool)
    {b : β} (hb : S b) : (t.within registry past).runOutcome index running b =
      t.runOutcome index running b :=
  h.run hb (t.context index running) t.world.vars

theorem skipOutcome_within (h : t.world.registry.Blends S registry) (index : Nat) {b : β}
    (hb : S b) : (t.within registry past).skipOutcome index b = t.skipOutcome index b :=
  h.skip hb (t.context index false) t.world.vars

theorem choice_within (h : t.world.registry.Blends S registry) (index : Nat) {b : β} (hb : S b) :
    (t.within registry past).choice index b = t.choice index b :=
  h.choose hb (t.choiceContext index) t.world.vars

theorem chosen_within (h : t.world.registry.Blends S registry) (index : Nat) (node : Node β) {b : β}
    (hb : S b) : (t.within registry past).chosen index node b =
      (t.chosen index node b).within registry past := by
  have hcall : ((t.within registry past).noteCall .choose index b).world =
      (t.noteCall .choose index b).world.within registry past := rfl
  unfold chosen
  rw [choice_within h index hb, hcall]
  dsimp only
  rw [World.absorbChoice_within]
  rfl

theorem resolve_within (h : t.world.registry.Blends S registry) (index : Nat) (node : Node β)
    {b : β} (hb : S b) : (t.within registry past).resolve index node b =
      ((t.resolve index node b).1.within registry past, (t.resolve index node b).2) := by
  by_cases hnone : Behaviour.outputs b = 0
  · rw [resolve_of_outputs_eq_zero _ index node hnone,
      resolve_of_outputs_eq_zero _ index node hnone]
  · cases hm : t.recalled? node b with
    | some output =>
      -- A behaviour that is not asked cannot tell anything apart.
      have hm' : (t.within registry past).recalled? node b = some output := hm
      rw [resolve_of_recalled index hnone hm, resolve_of_recalled index hnone hm']
      exact endingAt_within (t.recalled index) registry past node output
    | none =>
      have hm' : (t.within registry past).recalled? node b = none := hm
      rw [resolve_of_choice index hnone hm, resolve_of_choice index hnone hm',
        chosen_within h index node hb, choice_within h index hb]
      exact endingAt_within _ registry past node _

theorem endings_within (h : t.world.registry.Blends S registry) (index : Nat) {node : Node β}
    (hb : ∀ b, node.behaviour = some b → S b) : (t.within registry past).endings index node =
      ((t.endings index node).1.within registry past, (t.endings index node).2) := by
  unfold Turn.endings
  cases hn : node.behaviour with
  | none => rfl
  | some b =>
    dsimp only
    split_ifs
    · rfl
    · rw [resolve_within h index node (hb b hn)]

theorem unseen_leave (h : t.world.registry.Blends S registry) (past : Past β) (index : Nat)
    {node : Node β} (hb : ∀ b, node.behaviour = some b → S b) :
    (t.leave index node).Unseen S past ((t.within registry past).leave index node) := by
  have hendings := t.calm_endings index node
  have hfollow := (t.endings index node).1.calm_followAll index (t.endings index node).2
  unfold leave
  rw [endings_within h index hb, followAll_within]
  rcases hf : (t.endings index node).1.followAll index (t.endings index node).2 with ⟨u, _ | _⟩ <;>
    rw [hf] at hfollow
  · -- No branch goes on from the node, so this may have been the last one.
    have hu : u.world.registry.Blends S registry := by
      rw [hfollow.world.registry, hendings.world.registry]
      exact h
    exact unseen_settle hu past
  · refine ⟨rfl, fun _ => ?_⟩
    change u.world.registry.Blends S registry
    rw [hfollow.world.registry, hendings.world.registry]
    exact h

/-! ### Taking up a branch -/

theorem unseen_finish (h : t.world.registry.Blends S registry) (past : Past β)
    (hb : t.playback.Behaves S) (index : Nat) :
    (t.finish index).Unseen S past ((t.within registry past).finish index) := by
  cases hn : t.playback.nodes[index]? with
  | none =>
    have hn' : (t.within registry past).playback.nodes[index]? = none := hn
    rw [finish_of_none hn, finish_of_none hn']
    exact unseen_settle h past
  | some node =>
    have hn' : (t.within registry past).playback.nodes[index]? = some node := hn
    cases hp : t.playback.pauseRequested with
    | false =>
      have hp' : (t.within registry past).playback.pauseRequested = false := hp
      have hrest : (t.rest index).world.registry.Blends S registry := h
      rw [finish_of_following hn hp, finish_of_following hn' hp']
      exact unseen_leave hrest past index (hb node (List.mem_of_getElem? hn))
    | true =>
      have hp' : (t.within registry past).playback.pauseRequested = true := hp
      rw [finish_of_pauseRequested hn hp, finish_of_pauseRequested hn' hp',
        show (t.within registry past).ready = t.ready from rfl,
        show (t.within registry past).playback = t.playback from rfl]
      split_ifs
      · -- The branch that rests was the last one, and the pause takes effect.
        exact unseen_endPause ((t.rest index).keep index) registry past
      · exact ⟨rfl, fun _ => h⟩

theorem unseen_suspend (h : t.world.registry.Blends S registry) (past : Past β) (index : Nat)
    (wait : Float32) :
    (t.suspend index wait).Unseen S past ((t.within registry past).suspend index wait) :=
  ⟨rfl, fun _ => h⟩

omit [Behaviour β] in
theorem behaves_called (hb : t.playback.Behaves S) (form : Call.Form) (index : Nat) (b : β)
    {o : Outcome β} (ho : S o.behaviour) (running : Bool) :
    (t.called form index b o running).playback.Behaves S :=
  hb.modifyNode fun _ _ _ hsome => Option.some.inj hsome ▸ ho

theorem unseen_enter (hS : Enclosed S) (h : t.world.registry.Blends S registry) (past : Past β)
    (hbehaves : t.playback.Behaves S) (index : Nat) {b : β} (hb : S b) :
    (t.enter index b).Unseen S past ((t.within registry past).enter index b) := by
  have hassigned : (t.within registry past).assigned b = t.assigned b := rfl
  have hb' : S (t.assigned b) := by
    unfold assigned
    split_ifs
    · exact hb
    · exact hS.assign hb _
  cases hs : t.playback.skipping with
  | true =>
    have hs' : (t.within registry past).playback.skipping = true := hs
    -- The calls are the same on both sides, as the behaviour sees the same.
    rw [enter_of_skipping hs, enter_of_skipping hs', hassigned, skipOutcome_within h index hb',
      called_within]
    refine unseen_finish ?_ past ?_ index
    · rw [(t.calm_called _ _ _ _ _).world.registry]
      exact h
    · exact behaves_called hbehaves .skip index _ (hS.skip hb' _ _) false
  | false =>
    have hs' : (t.within registry past).playback.skipping = false := hs
    rw [enter_of_playing hs, enter_of_playing hs', hassigned, runOutcome_within h index false hb']
    dsimp only
    rw [called_within]
    have hkind : S (t.runOutcome index false (t.assigned b)).behaviour := hS.run hb' _ _
    have hcalled := (t.calm_called .run index (t.assigned b)
      (t.runOutcome index false (t.assigned b))
      (t.runOutcome index false (t.assigned b)).running).world.registry
    split_ifs
    · -- The behaviour wants to be called again.
      exact unseen_suspend (by rw [hcalled]; exact h) past index _
    · exact unseen_finish (by rw [hcalled]; exact h) past
        (behaves_called hbehaves .run index _ hkind _) index

/-- The limit of a skip is the same for both. -/
theorem unseen_hop (h : t.world.registry.Blends S registry) (past : Past β) :
    t.hop.1.Unseen S past (t.within registry past).hop.1 ∧
      (t.within registry past).hop.2 = t.hop.2 := by
  cases hs : t.playback.skipping with
  | false =>
    have hs' : (t.within registry past).playback.skipping = false := hs
    rw [hop_of_not_skipping hs, hop_of_not_skipping hs']
    exact ⟨⟨rfl, fun _ => h⟩, rfl⟩
  | true =>
    have hs' : (t.within registry past).playback.skipping = true := hs
    have hnotice : (t.within registry past).world.notice .hopLimitExceeded =
        (t.world.notice .hopLimitExceeded).within registry past := rfl
    unfold hop
    dsimp only
    rw [if_pos hs, if_pos hs', hnotice]
    -- Both playbacks are as long and have come as far.
    by_cases hover : t.playback.nodes.length * max t.world.config.hopFactor 1 % UInt64.size <
        t.playback.hops + 1
    · have hover' : (t.within registry past).playback.nodes.length *
          max (t.within registry past).world.config.hopFactor 1 % UInt64.size <
            (t.within registry past).playback.hops + 1 := hover
      rw [if_pos hover, if_pos hover', Playback.kill_within]
      -- A playback that has been killed calls nobody, so what is around it may differ in any way.
      exact ⟨⟨rfl, fun hrun => by simp [Playback.kill] at hrun⟩, rfl⟩
    · have hover' : ¬ (t.within registry past).playback.nodes.length *
          max (t.within registry past).world.config.hopFactor 1 % UInt64.size <
            (t.within registry past).playback.hops + 1 := hover
      rw [if_neg hover, if_neg hover']
      exact ⟨⟨rfl, fun _ => h⟩, rfl⟩

theorem unseen_visit (hS : Enclosed S) (h : t.world.registry.Blends S registry) (past : Past β)
    (hb : t.playback.Behaves S) (index : Nat) (hrun : t.playback.phase = .running) :
    (t.visit index).Unseen S past ((t.within registry past).visit index) := by
  obtain ⟨⟨heq, hblends⟩, hgo⟩ := unseen_hop h past
  rcases t.hop_cases with ⟨hhop, hcalm, hnodes, -⟩ | ⟨hhop, -⟩
  · have hhop' := hgo.trans hhop
    have hsame := hblends (hcalm.phase.trans hrun)
    -- Which registry the other turn has come to does not matter.
    generalize (t.within registry past).hop.1.world.registry = registry' at heq hsame
    have hplayback : (t.within registry past).hop.1.playback = t.hop.1.playback := by rw [heq]; rfl
    have hb' : t.hop.1.playback.Behaves S := by
      unfold Playback.Behaves
      rw [hnodes]
      exact hb
    cases hn : t.hop.1.playback.nodes[index]? with
    | none =>
      rw [visit_of_none hhop hn, visit_of_none hhop' (hplayback ▸ hn), heq]
      exact unseen_settle hsame past
    | some node =>
      cases hr : node.isRunnable with
      | false =>
        rw [visit_of_not_runnable hhop hn (isRunnable_eq_false hr),
          visit_of_not_runnable hhop' (hplayback ▸ hn) (isRunnable_eq_false hr), heq]
        exact ⟨rfl, fun _ => hsame⟩
      | true =>
        obtain ⟨he, hsome⟩ := Bool.and_eq_true_iff.mp hr
        obtain ⟨b, hbehaviour⟩ := Option.isSome_iff_exists.mp hsome
        rw [visit_of_runnable hhop hn he hbehaviour,
          visit_of_runnable hhop' (hplayback ▸ hn) he hbehaviour, heq]
        exact unseen_enter hS hsame past hb' index
          (hb' node (List.mem_of_getElem? hn) b hbehaviour)
  · -- The skip has come to its limit on both sides.
    rw [visit_of_killed hhop, visit_of_killed (hgo.trans hhop)]
    exact ⟨heq, hblends⟩

theorem unseen_poll (hS : Enclosed S) (h : t.world.registry.Blends S registry) (past : Past β)
    (hbehaves : t.playback.Behaves S) (index : Nat) :
    (t.poll index).Unseen S past ((t.within registry past).poll index) := by
  cases hn : t.playback.nodes[index]? with
  | none =>
    have hn' : (t.within registry past).playback.nodes[index]? = none := hn
    rw [poll_of_none hn, poll_of_none hn']
    exact unseen_settle h past
  | some node =>
    have hn' : (t.within registry past).playback.nodes[index]? = some node := hn
    cases hsome : node.behaviour with
    | none =>
      rw [poll_of_behaviour_none hn hsome, poll_of_behaviour_none hn' hsome]
      exact unseen_finish h past hbehaves index
    | some b =>
      have hb : S b := hbehaves node (List.mem_of_getElem? hn) b hsome
      rw [poll_of_some hn hsome, poll_of_some hn' hsome, runOutcome_within h index node.running hb]
      dsimp only
      -- How the call is noted does not matter.
      generalize (if node.running then Call.Form.poll else .run) = form
      have hkind : S (t.runOutcome index node.running b).behaviour := hS.run hb _ _
      have hcalled := (t.calm_called form index b (t.runOutcome index node.running b)
        (t.runOutcome index node.running b).running).world.registry
      rw [called_within]
      split_ifs
      · exact unseen_suspend (by rw [hcalled]; exact h) past index _
      · exact unseen_finish (by rw [hcalled]; exact h) past
          (behaves_called hbehaves form index b hkind _) index

theorem unseen_advance (hS : Enclosed S) (h : t.world.registry.Blends S registry) (past : Past β)
    (hb : t.playback.Behaves S) (b : Branch) (hrun : t.playback.phase = .running) :
    (t.advance b).Unseen S past ((t.within registry past).advance b) := by
  unfold advance
  cases b.step with
  | visit => exact unseen_visit hS h past hb b.index hrun
  | poll => exact unseen_poll hS h past hb b.index
  | resolve => exact unseen_finish h past hb b.index

/-! ### Branch after branch -/

/-- No change of a running turn makes a node leave its kind. -/
theorem Change.behaves {u : Turn β} (h : t.Change u) (hS : Enclosed S)
    (hb : t.playback.Behaves S) : u.playback.Behaves S := by
  have hassigned : ∀ {b}, S b → S (t.assigned b) := by
    intro b hb
    unfold assigned
    split_ifs
    · exact hb
    · exact hS.assign hb _
  cases h with
  | skipped hn hsome =>
    exact behaves_called hb .skip _ _
      (hS.skip (hassigned (hb _ (List.mem_of_getElem? hn) _ hsome)) _ _) false
  | ran hn hsome hb' =>
    have hkind := hb _ (List.mem_of_getElem? hn) _ hsome
    refine hb.modifyNode fun _ _ _ hrun => Option.some.inj hrun ▸ hS.run ?_ _ _
    rcases hb' with rfl | rfl
    · exact hkind
    · exact hassigned hkind
  | rested index => exact hb.modifyNode fun n hn b hsome => hb n hn b hsome
  | recalled => exact hb.modifyNode fun n hn b hsome => hb n hn b hsome
  | chosen hn hsome =>
    exact hb.modifyNode fun _ _ _ hchosen => Option.some.inj hchosen ▸
      hS.choose (hb _ (List.mem_of_getElem? hn) _ hsome) _ _
  | killed =>
    intro n hn b hsome
    obtain ⟨m, hm, rfl⟩ := List.mem_map.mp hn
    exact hb m hm b hsome
  | _ => exact hb

theorem Changes.behaves {u : Turn β} (h : t.Changes u) (hS : Enclosed S)
    (hb : t.playback.Behaves S) : u.playback.Behaves S :=
  h.invariant (I := fun u : Turn β => u.playback.Behaves S) hb
    fun _ _ hb _ hchange => hchange.behaves hS hb

/-- Both turns come to their ends, with nothing between them but what was around them, or neither
does. -/
theorem Unseen.run {t u : Turn β} (h : t.Unseen S past u) (hS : Enclosed S)
    (hb : t.playback.Behaves S) (hs : t.Straight) (fuel : Nat) :
    ∃ registry, u.run fuel = (t.run fuel).map fun r => (r.1, r.2.within registry past) := by
  induction fuel generalizing t u with
  | zero =>
    obtain ⟨heq, -⟩ := h
    rcases t.over_or_ready with hover | ⟨hp, b, rest, hready⟩
    · have hover' : u.ready = [] ∨ u.playback.phase ≠ .running := by
        rw [heq]
        exact hover
      rw [run_of_over hover, run_of_over hover', heq]
      exact ⟨u.world.registry, rfl⟩
    · have hready' : u.ready = b :: rest := by
        rw [heq]
        exact hready
      have hp' : u.playback.phase = .running := by
        rw [heq]
        exact hp
      -- Neither turn has come to its end, so any registry will do.
      rw [run_zero_of_ready_eq_cons hp hready, run_zero_of_ready_eq_cons hp' hready']
      exact ⟨{}, rfl⟩
  | succ fuel ih =>
    obtain ⟨heq, hblends⟩ := h
    rcases t.over_or_ready with hover | ⟨hp, b, rest, hready⟩
    · have hover' : u.ready = [] ∨ u.playback.phase ≠ .running := by
        rw [heq]
        exact hover
      rw [run_of_over hover, run_of_over hover', heq]
      exact ⟨u.world.registry, rfl⟩
    · have hsame := hblends hp
      generalize u.world.registry = registry at heq hsame
      subst heq
      have hready' : (t.within registry past).ready = b :: rest := hready
      have hp' : (t.within registry past).playback.phase = .running := hp
      rw [run_of_ready_eq_cons hp hready, run_of_ready_eq_cons hp' hready']
      -- In a skip nothing is ready but visits.
      have hvisit : t.playback.skipping = true → b.step = .visit :=
        fun hskip => hs hskip b (hready ▸ List.mem_cons_self)
      have htaken : t.Changes ({ t with ready := rest } : Turn β) :=
        (Change.taken hready).changes hp
      have hchanges : t.Changes (({ t with ready := rest } : Turn β).advance b) :=
        htaken.trans (changes_advance _ b hp hvisit)
      exact ih (unseen_advance (t := { t with ready := rest }) hS hsame past hb b hp)
        (hchanges.behaves hS hb) (hchanges.straight hs)

end Turn

end Cutscene
