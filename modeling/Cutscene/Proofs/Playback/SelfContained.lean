import Cutscene.Behaviour.Builtin
import Cutscene.Proofs.Playback.Raising
import Cutscene.Proofs.Playback.Traits
import Cutscene.Proofs.Playback.Unseen

/-!
# Playbacks that keep to themselves

A behaviour is `SelfContained` if it raises no commands, leaves the variables alone and does not ask
which graphs run. A playback whose nodes behave so, and lead to no other graph, leaves the world as
it is but for its own record and the journal (`Playback.quiet_update`), and comes to the same in
every world that is the same for it (`Playback.update_sameFor`): one in which its own record, the
time, the variables and the settings are the same and the same commands wait, whatever else is going
on in it.
-/

namespace Cutscene

variable {β : Type}

/-- Behaviours that do nothing to others and know nothing of them. -/
structure SelfContained [Behaviour β] (S : β → Prop) : Prop extends Enclosed S where
  commands : ∀ {b}, S b → ∀ ctx vars, (Behaviour.run ctx vars b).commands = []
  vars : ∀ {b}, S b → ∀ ctx vars, (Behaviour.run ctx vars b).vars = vars
  choiceVars : ∀ {b}, S b → ∀ ctx vars, (Behaviour.choose ctx vars b).vars = vars
  blind : ∀ reg reg' : Registry, reg.Blends S reg'

/-- No ending leads to another graph. -/
def Playback.KeepsToItself (p : Playback β) : Prop :=
  ∀ n ∈ p.nodes, ∀ graph, Ending.start graph ∈ n.endings → graph = p.graph

/-- The record of a playback that runs no more, or still runs, from the one it had when it ran. -/
def Playback.recordAfter (p : Playback β) (before : Option Record) : Option Record :=
  match p.phase with
  | .paused => before.map fun r =>
    { r with
      running := false, resumePoints := p.resumePoints, parameters := p.parameters.snapshot }
  | .finished => none
  | _ => before

namespace World

/-- The time, the variables and the settings are the same. -/
structure SameSetting (w w' : World β) : Prop where
  clock : w'.clock = w.clock
  vars : w'.vars = w.vars
  config : w'.config = w.config
  sceneLoading : w'.sceneLoading = w.sceneLoading

/-- A playback cannot tell one world from the other, unless it asks which graphs run. -/
structure SameFor (id : Nat) (w w' : World β) : Prop extends w.SameSetting w' where
  record? : w'.registry.record? id = w.registry.record? id

/-- Nothing has happened in the world yet. -/
def bare (w : World β) : World β := { w with journal := [] }

variable {w w' w'' : World β} {id : Nat}

theorem SameSetting.refl (w : World β) : w.SameSetting w := ⟨rfl, rfl, rfl, rfl⟩

theorem SameSetting.symm (h : w.SameSetting w') : w'.SameSetting w :=
  ⟨h.clock.symm, h.vars.symm, h.config.symm, h.sceneLoading.symm⟩

theorem SameSetting.trans (h : w.SameSetting w') (h' : w'.SameSetting w'') : w.SameSetting w'' where
  clock := h'.clock.trans h.clock
  vars := h'.vars.trans h.vars
  config := h'.config.trans h.config
  sceneLoading := h'.sceneLoading.trans h.sceneLoading

theorem bare_within (w : World β) : w.bare.within w.registry w.journal = w := by
  simp [bare, within]

/-- In the same setting, where the same commands wait, worlds differ in what is around a playback
and in their past. -/
theorem SameSetting.bare_within (h : w.SameSetting w') (hc : w'.commands = w.commands) :
    w.bare.within w'.registry w'.journal = w' := by
  obtain ⟨clock, vars, registry, commands, config, sceneLoading, journal⟩ := w'
  obtain ⟨hclock, hvars, hconfig, hscene⟩ := h
  simp only at hclock hvars hconfig hscene hc
  simp [bare, within, hclock, hvars, hconfig, hscene, hc]

/-- What happens in a bare world happens in the same way behind any past. -/
theorem Raises.grows_within (h : w.bare.Raises w') (hc : w''.commands = w.commands) (id : Nat)
    (registry : Registry) : w''.Grows id
      ⟨w'.eventsOf id, w'.calls, w'.commands.drop w.commands.length⟩
      (w'.within registry w''.journal) where
  events := by simp [within, eventsOf]
  calls := by simp [within, World.calls]
  commands := by
    obtain ⟨raised, hraised⟩ : w.commands <+: w'.commands := h
    change w'.commands = w''.commands ++ w'.commands.drop w.commands.length
    rw [hc, ← hraised, List.drop_left]

end World

namespace Turn

variable [Behaviour β] {t u : Turn β} {S : β → Prop}

/-- Nothing but the journal and the registry changes in a world in which a playback keeps to
itself. -/
theorem Change.quiet (h : t.Change u) (hS : SelfContained S) (hb : t.playback.Behaves S)
    (hself : t.playback.KeepsToItself) (hs : t.playback.skipping = false) :
    t.world.SameSetting u.world ∧ u.world.commands = t.world.commands := by
  have hnever : t.playback.skipping ≠ true := by simp [hs]
  cases h with
  -- Only an ending that leads to another graph raises a command here.
  | raised hn he hg => exact absurd (hself _ hn _ he) hg
  | skipped _ _ hskip => exact absurd hskip hnever
  | killed hskip => exact absurd hskip hnever
  | @ran index node b b' running hn hsome hb' =>
    -- The behaviour that runs is one of its kind, with bound parameters or without.
    have hkind : S b' := by
      have hnode := hb node (List.mem_of_getElem? hn) b hsome
      rcases hb' with rfl | rfl
      · exact hnode
      · unfold assigned
        split_ifs
        · exact hnode
        · exact hS.assign hnode _
    have hvars := hS.vars hkind (t.context index running) t.world.vars
    have hcommands := hS.commands hkind (t.context index running) t.world.vars
    unfold Turn.ran called World.absorb
    rw [World.noticeAll_eq]
    refine ⟨⟨rfl, hvars, rfl, rfl⟩, ?_⟩
    change t.world.commands ++
      (Behaviour.run (t.context index running) t.world.vars b').commands = _
    rw [hcommands, List.append_nil]
  | @chosen index node b hn hsome =>
    have hkind := hb node (List.mem_of_getElem? hn) b hsome
    have hvars := hS.choiceVars hkind (t.choiceContext index) t.world.vars
    unfold Turn.chosen World.absorbChoice
    dsimp only
    rw [World.noticeAll_eq]
    exact ⟨⟨rfl, hvars, rfl, rfl⟩, rfl⟩
  | ended =>
    obtain ⟨hclock, hconfig, hscene, -⟩ := t.endRun_world
    refine ⟨⟨hclock, ?_, hconfig, hscene⟩, t.commands_endRun⟩
    unfold endRun
    dsimp only
    cases t.playback.conversation <;> rfl
  | _ => exact ⟨⟨rfl, rfl, rfl, rfl⟩, rfl⟩

theorem Change.keepsToItself (h : t.Change u) (hself : t.playback.KeepsToItself) :
    u.playback.KeepsToItself := by
  intro n hn graph hmem
  have hgraph : u.playback.graph = t.playback.graph :=
    congrArg Playback.Identity.graph h.identity
  have hown : n.endings ∈ u.playback.nodes.map (·.endings) := List.mem_map_of_mem hn
  rw [h.endings] at hown
  obtain ⟨m, hm, hsame⟩ := List.mem_map.mp hown
  rw [hgraph]
  exact hself m hm graph (hsame ▸ hmem)

theorem Changes.quiet (h : t.Changes u) (hS : SelfContained S) (hb : t.playback.Behaves S)
    (hself : t.playback.KeepsToItself) (hs : t.playback.skipping = false) :
    t.world.SameSetting u.world ∧ u.world.commands = t.world.commands := by
  have hall : t.world.SameSetting u.world ∧ u.world.commands = t.world.commands ∧
      u.playback.Behaves S ∧ u.playback.KeepsToItself ∧ u.playback.skipping = false := by
    refine h.invariant (I := fun u : Turn β => t.world.SameSetting u.world ∧
      u.world.commands = t.world.commands ∧ u.playback.Behaves S ∧ u.playback.KeepsToItself ∧
      u.playback.skipping = false) ⟨.refl _, rfl, hb, hself, hs⟩ ?_
    rintro u v ⟨hsame, hcommands, hb, hself, hs⟩ hrun hchange
    obtain ⟨hsame', hcommands'⟩ := hchange.quiet hS hb hself hs
    exact ⟨hsame.trans hsame', hcommands'.trans hcommands, hchange.behaves hS.toEnclosed hb,
      hchange.keepsToItself hself, (hchange.changes hrun).notSkipping hs⟩
  exact ⟨hall.1, hall.2.1⟩

omit [Behaviour β] in
theorem record?_endRun (t : Turn β) : t.endRun.world.registry.record? t.playback.id = none := by
  rw [t.endRun_world.2.2.2, Registry.record?_drop, if_pos rfl]

/-- A turn leaves the record of its playback alone until it has come to its end. -/
theorem Changes.record? (h : t.Changes u) (hrun : t.playback.phase = .running) :
    u.world.registry.record? t.playback.id =
      u.playback.recordAfter (t.world.registry.record? t.playback.id) := by
  have hboth : u.playback.id = t.playback.id ∧ u.world.registry.record? t.playback.id =
      u.playback.recordAfter (t.world.registry.record? t.playback.id) := by
    refine h.invariant (I := fun u : Turn β => u.playback.id = t.playback.id ∧
      u.world.registry.record? t.playback.id =
        u.playback.recordAfter (t.world.registry.record? t.playback.id)) ⟨rfl, ?_⟩ ?_
    · unfold Playback.recordAfter
      rw [hrun]
    · rintro u v ⟨hid, hrecord⟩ hrun hchange
      refine ⟨(congrArg Playback.Identity.id hchange.identity).trans hid, ?_⟩
      unfold Playback.recordAfter at hrecord
      rw [hrun] at hrecord
      rcases hchange.calm_or_stops with ⟨hcalm, -⟩ | rfl | ⟨-, rfl⟩ | ⟨-, rfl⟩
      · -- Nothing that the record tells has changed.
        unfold Playback.recordAfter
        rw [hcalm.phase, hrun, hcalm.world.registry, hrecord]
      · -- The run has ended, and the record is gone.
        rw [← hid]
        exact u.record?_endRun
      · -- The pause has taken effect, and the record holds it.
        change (u.world.registry.pause u.playback.id u.playback.resumePoints
          u.playback.parameters.snapshot).record? t.playback.id = _
        rw [hid, Registry.record?_pause, if_pos rfl, hrecord]
        rfl
      · -- The playback has been killed, and the record is gone.
        change (u.playback.kill u.world).2.registry.record? t.playback.id = _
        rw [Playback.registry_kill, hid, Registry.record?_drop, if_pos rfl]
        rfl
  exact hboth.2

end Turn

namespace Playback

variable [Behaviour β] {S : β → Prop} {p : Playback β} {w w' : World β} {fuel : Nat}
  {r : Playback β × World β}

omit [Behaviour β] in
theorem Behaves.updateBeginning (h : p.Behaves S) (w : World β) :
    (p.updateBeginning w).playback.Behaves S := by
  have hclear : ∀ q : Playback β, q.nodes = p.nodes → q.clearBranches.Behaves S := by
    intro q hq n hn b hsome
    obtain ⟨m, hm, rfl⟩ := List.mem_map.mp hn
    exact h m (hq ▸ hm) b hsome
  unfold Playback.updateBeginning
  split_ifs
  · exact h
  · exact hclear p rfl
  · exact h
  · exact hclear (p.waiting w) rfl
  · exact h
  · exact h

omit [Behaviour β] in
/-- To begin with, an update changes nothing but records and the journal. -/
theorem quiet_updateBeginning (hs : p.skipping = false) (w : World β) :
    w.SameSetting (p.updateBeginning w).world ∧
      (p.updateBeginning w).world.commands = w.commands ∧
      (p.updateBeginning w).playback.skipping = false := by
  unfold Playback.updateBeginning
  split_ifs
  · exact ⟨.refl w, rfl, hs⟩
  · exact ⟨⟨rfl, rfl, rfl, rfl⟩, rfl, rfl⟩
  · exact ⟨.refl w, rfl, hs⟩
  · change w.SameSetting ((p.waiting w).kill w).2 ∧ ((p.waiting w).kill w).2.commands = _ ∧ _
    unfold kill
    dsimp only
    split_ifs
    · exact ⟨⟨rfl, rfl, rfl, rfl⟩, rfl, rfl⟩
    · exact ⟨⟨rfl, rfl, rfl, rfl⟩, rfl, rfl⟩
  · exact ⟨.refl w, rfl, hs⟩
  · exact ⟨.refl w, rfl, hs⟩

theorem KeepsToItself.beginning (h : p.KeepsToItself) (w : World β) (op : Operation) :
    (p.beginning w op).playback.KeepsToItself := by
  intro n hn graph hmem
  have hgraph : (p.beginning w op).playback.graph = p.graph :=
    congrArg Identity.graph (p.identity_beginning w op)
  have hown : n.endings ∈ (p.beginning w op).playback.nodes.map (·.endings) :=
    List.mem_map_of_mem hn
  rw [traits_beginning Node.fixed_endings.toLasting p w op] at hown
  obtain ⟨m, hm, hsame⟩ := List.mem_map.mp hown
  rw [hgraph]
  exact h m hm graph (hsame ▸ hmem)

/-- An update begins alike wherever the playback has the same record. -/
theorem unseen_updateBeginning {registry : Registry} (h : w.registry.Blends S registry)
    (hr : registry.record? p.id = w.registry.record? p.id) (past : Past β) :
    (p.updateBeginning w).Unseen S past (p.updateBeginning (w.within registry past)) := by
  have hlive : (w.within registry past).registry.isLive p.id = w.registry.isLive p.id := by
    change registry.isLive p.id = _
    rw [Registry.isLive, hr]
    rfl
  unfold updateBeginning
  rw [hlive, show p.due (w.within registry past) = p.due w from rfl,
    show p.waiting (w.within registry past) = p.waiting w from rfl,
    show (w.within registry past).sceneLoading = w.sceneLoading from rfl, kill_within]
  split_ifs
  · exact ⟨rfl, fun _ => h⟩
  · exact ⟨rfl, fun hrun => by simp [Turn.still] at hrun⟩
  · exact ⟨rfl, fun _ => h⟩
  · exact ⟨rfl, fun hrun => by simp [Turn.still, kill] at hrun⟩
  · exact ⟨rfl, fun _ => h⟩
  · exact ⟨rfl, fun _ => h⟩

/-- An update comes to the same wherever the playback has the same record. -/
theorem update_within (hS : SelfContained S) (hb : p.Behaves S) (hs : p.skipping = false)
    (w : World β) {registry : Registry} (hr : registry.record? p.id = w.registry.record? p.id)
    (past : Past β) (fuel : Nat) : ∃ registry', p.update fuel (w.within registry past) =
      (p.update fuel w).map fun r => (r.1, r.2.within registry' past) := by
  have hunseen := unseen_updateBeginning (hS.blind w.registry registry) hr past
  obtain ⟨registry', hrun⟩ :=
    hunseen.run hS.toEnclosed (hb.updateBeginning w) (straight_beginning hs w .update) fuel
  refine ⟨registry', ?_⟩
  have hupdate : ∀ w : World β, p.update fuel w = (p.updateBeginning w).run fuel :=
    fun w => perform_eq fuel p w .update
  rw [hupdate, hupdate]
  exact hrun

/-- What becomes of the record of a playback that runs when it is updated. -/
theorem record?_update (hs : p.skipping = false) (hrun : p.phase = .running)
    (hlive : w.registry.isLive p.id = true) (hr : p.update fuel w = some r) :
    r.2.registry.record? p.id = r.1.recordAfter (w.registry.record? p.id) := by
  have hstill : ∀ q : Playback β, q.phase = .running →
      w.registry.record? p.id = q.recordAfter (w.registry.record? p.id) := by
    intro q hq
    unfold recordAfter
    rw [hq]
  by_cases hpending : p.pending = []
  · rw [update_of_nothing_waiting fuel w (Or.inr hpending)] at hr
    obtain rfl := Option.some.inj hr
    exact hstill p hrun
  · rw [update_of_isLive fuel hrun hpending hlive] at hr
    split_ifs at hr
    · -- Nothing is due.
      obtain rfl := Option.some.inj hr
      exact hstill (p.waiting w) hrun
    · -- The scene changes, and the playback is cut off for that.
      obtain rfl := Option.some.inj hr
      rw [registry_kill, show (p.waiting w).id = p.id from rfl, Registry.record?_drop, if_pos rfl]
      rfl
    · -- What is due is put off.
      obtain rfl := Option.some.inj hr
      exact hstill { p.waiting w with pending := (p.waiting w).pending ++ p.due w } hrun
    · have hstraight : (⟨p.waiting w, w, p.due w⟩ : Turn β).Straight := by
        -- Between operations nothing is skipped.
        intro hskip
        have hskip : p.skipping = true := hskip
        simp [hs] at hskip
      obtain ⟨u, hu, rfl, -⟩ := Turn.changes_run hstraight hr
      exact hu.record? hrun

/-- A playback that keeps to itself is updated in the same way in every world that is the same for
it and in which the same commands wait, and leaves worlds that are the same for it. -/
theorem update_sameFor (hS : SelfContained S) (hb : p.Behaves S) (hs : p.skipping = false)
    (h : w.SameFor p.id w') (hc : w'.commands = w.commands) (hlive : p.IsLive w)
    (hr : p.update fuel w = some r) :
    ∃ r', p.update fuel w' = some r' ∧ r'.1 = r.1 ∧ r.2.SameFor p.id r'.2 ∧
      ∃ log, w.Grows p.id log r.2 ∧ w'.Grows p.id log r'.2 := by
  -- Both updates are compared with the one in a world in which nothing has happened yet.
  have hbare : w.bare.registry.record? p.id = w.registry.record? p.id := rfl
  obtain ⟨reg, hat⟩ := update_within hS hb hs w.bare hbare.symm w.journal fuel
  obtain ⟨reg', hat'⟩ := update_within hS hb hs w.bare (h.record?.trans hbare.symm) w'.journal fuel
  rw [World.bare_within, hr] at hat
  rw [h.toSameSetting.bare_within hc] at hat'
  obtain ⟨r₀, hr₀, rfl⟩ := Option.map_eq_some_iff.mp hat.symm
  rw [hr₀] at hat'
  have hperform : p.perform fuel w.bare .update = some r₀ := hr₀
  have hraises : w.bare.Raises r₀.2 := raises_perform hperform
  refine ⟨_, hat', rfl, ⟨⟨rfl, rfl, rfl, rfl⟩, ?_⟩, _, hraises.grows_within rfl p.id reg,
    hraises.grows_within hc p.id reg'⟩
  by_cases hrun : p.phase = .running
  · have hlive' : w'.registry.isLive p.id = true := by
      rw [Registry.isLive, h.record?]
      exact hlive hrun
    rw [record?_update hs hrun (hlive hrun) hr, record?_update hs hrun hlive' hat', h.record?]
  · rw [update_of_nothing_waiting fuel w (Or.inl hrun)] at hr
    rw [update_of_nothing_waiting fuel w' (Or.inl hrun)] at hat'
    have hw := congrArg Prod.snd (Option.some.inj hr)
    have hw' := congrArg Prod.snd (Option.some.inj hat')
    dsimp only at hw hw' ⊢
    rw [← hw, ← hw']
    exact h.record?

/-- An update of a playback that keeps to itself changes nothing but records and the journal. -/
theorem quiet_update (hS : SelfContained S) (hb : p.Behaves S) (hself : p.KeepsToItself)
    (hs : p.skipping = false) (hr : p.update fuel w = some r) :
    w.SameSetting r.2 ∧ r.2.commands = w.commands := by
  obtain ⟨hbegin, hcommands, hskip⟩ := quiet_updateBeginning hs w
  have hr : (p.updateBeginning w).run fuel = some r := (perform_eq fuel p w .update).symm.trans hr
  obtain ⟨u, hu, rfl, -⟩ := Turn.changes_run (straight_beginning hs w .update) hr
  change (p.updateBeginning w).Changes u at hu
  obtain ⟨hsame, hnone⟩ := hu.quiet hS (hb.updateBeginning w) (hself.beginning w .update) hskip
  exact ⟨hbegin.trans hsame, hnone.trans hcommands⟩

end Playback

/-! ### Built-in behaviours -/

namespace Builtin

/-- The node neither deals with graphs nor sets variables. -/
def isSelfContained : Builtin → Bool
  | .runGraph _ | .controlGraph _ | .setVariable _ => false
  | _ => true

theorem run_of_isSelfContained {b : Builtin} (h : b.isSelfContained = true) (ctx : Context)
    (vars : Variables) :
    (b.run ctx vars).commands = [] ∧ (b.run ctx vars).vars = vars ∧
      (b.run ctx vars).behaviour.isSelfContained = true := by
  cases b with
  | wait b =>
    -- Waits answer in one of two ways.
    unfold Builtin.run Wait.run
    dsimp only
    split_ifs <;> exact ⟨rfl, rfl, rfl⟩
  | waitUntil b =>
    unfold Builtin.run WaitUntil.run
    dsimp only
    split_ifs <;> exact ⟨rfl, rfl, rfl⟩
  | runGraph | controlGraph | setVariable => cases h
  | _ => exact ⟨rfl, rfl, rfl⟩

theorem selfContained : SelfContained fun b : Builtin => b.isSelfContained = true where
  assign {b} h parameters := by cases b <;> exact h
  run h ctx vars := (run_of_isSelfContained h ctx vars).2.2
  skip {b} h ctx vars := by cases b <;> exact h
  choose {b} h ctx vars := by cases b <;> exact h
  commands h ctx vars := (run_of_isSelfContained h ctx vars).1
  vars h ctx vars := (run_of_isSelfContained h ctx vars).2.1
  choiceVars {b} h ctx vars := by cases b <;> rfl
  blind reg reg' := by
    refine ⟨?_, ?_, ?_⟩ <;>
    · intro b h ctx vars
      cases b <;> first | rfl | cases h

end Builtin

/-- The nodes of a playback of built-in kinds keep to themselves. -/
def Playback.isSelfContained (p : Playback Builtin) : Bool :=
  p.nodes.all fun n => n.behaviour.all (·.isSelfContained) &&
    n.endings.all fun
      | .start graph => graph = p.graph
      | _ => true

theorem Playback.behaves_of_isSelfContained {p : Playback Builtin} (h : p.isSelfContained = true) :
    p.Behaves (·.isSelfContained = true) ∧ p.KeepsToItself := by
  have hboth : ∀ n ∈ p.nodes, _ := List.all_eq_true.mp h
  refine ⟨fun n hn b hb => ?_, fun n hn graph hmem => ?_⟩
  · obtain ⟨hbehaves, -⟩ := Bool.and_eq_true_iff.mp (hboth n hn)
    rw [hb] at hbehaves
    exact hbehaves
  · obtain ⟨-, hendings⟩ := Bool.and_eq_true_iff.mp (hboth n hn)
    simpa using List.all_eq_true.mp hendings _ hmem

end Cutscene
