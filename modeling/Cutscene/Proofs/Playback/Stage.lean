import Cutscene.Playback.Operations
import Cutscene.Proofs.Journal
import Cutscene.Proofs.Playback.Equations
import Cutscene.Proofs.Registry
import Mathlib.Logic.Relation

/-!
# Stages of a playback's life

Whatever a host does with a playback, short of resetting its record, comes to a sequence of
`Stages`. Each `Stage` moves the phase of the playback, its record in the registry and the list of
its events in one of the ways that `Passage` lists, and leaves the records and the events of other
playbacks alone. What holds of every passage therefore holds of every operation; `Turn.stages_run`
says so for a turn.
-/

namespace Cutscene

variable {β : Type}

/-! ### One stage -/

/-- The parts of a playback that no operation on it changes. -/
structure Playback.Identity where
  id : Nat
  graph : String
  settings : Settings
  defaultStart : Nat
  conversation : Option String
  edition : Option Nat

/-- What makes a playback this one. -/
def Playback.identity (p : Playback β) : Playback.Identity :=
  ⟨p.id, p.graph, p.settings, p.defaultStart, p.conversation, p.edition⟩

/-- What observers hear when a playback gets going. -/
inductive Opening (p : Playback β) : List Event.Kind → Prop
  | began (h : p.isActive = false) (start : Nat) : Opening p [.began start]
  | beganSkipping (h : p.isActive = false) (start : Nat) :
    Opening p [.began start, .skipped start]
  | skipped (h : p.isActive = true) (start : Nat) : Opening p [.skipped start]
  | resumed (h : p.phase ≠ .running) : Opening p [.resumed]

/-- The events of a run that is over by itself. -/
def closing (conversation : Option String) : List Event.Kind :=
  .ended false :: (conversation.map .conversationDue).toList

/-- What a stage makes of a playback, of the registry, and what observers hear of it. -/
inductive Passage (p p' : Playback β) (reg : Registry) : Registry → List Event.Kind → Prop
  | calm (h : p'.phase = p.phase) (hr : p.phase = .paused → p'.resumePoints = p.resumePoints) :
    Passage p p' reg reg []
  | entered (start : Nat) (queue : Bool) {kinds : List Event.Kind} (h : p'.phase = .running)
    (ho : Opening p kinds) :
    Passage p p' reg (reg.enter p.id p.graph start queue p.conversation) kinds
  | paused (parameters : ParameterSet) (h : p.phase = .running) (h' : p'.phase = .paused) :
    Passage p p' reg (reg.pause p.id p'.resumePoints parameters.snapshot)
      [.paused p'.resumePoints]
  | ended (h : p.phase = .running) (h' : p'.phase = .finished) :
    Passage p p' reg (reg.drop p.id) (closing p.conversation)
  | killed (h' : p'.phase = .finished) :
    Passage p p' reg (reg.drop p.id) (if p.isActive then [.ended true] else [])
  /-- A running playback without a live record gives up. -/
  | lapsed (h : p.phase = .running) (hr : reg.isLive p.id = false) (h' : p'.phase = .finished) :
    Passage p p' reg reg []

/-- A stage in the life of a playback. -/
structure Stage (s s' : Playback β × World β) : Prop where
  identity : s'.1.identity = s.1.identity
  clock : s'.2.clock = s.2.clock
  config : s'.2.config = s.2.config
  sceneLoading : s'.2.sceneLoading = s.2.sceneLoading
  others : ∀ id, id ≠ s.1.id → s'.2.eventsOf id = s.2.eventsOf id
  passage : ∃ kinds, Passage s.1 s'.1 s.2.registry s'.2.registry kinds ∧
    s'.2.eventsOf s.1.id = s.2.eventsOf s.1.id ++ kinds

/-- Any number of stages, one after the other. -/
abbrev Stages (s s' : Playback β × World β) : Prop := Relation.ReflTransGen Stage s s'

theorem Stage.id_eq {s s' : Playback β × World β} (h : Stage s s') : s'.1.id = s.1.id :=
  congrArg Playback.Identity.id h.identity

theorem Stages.identity_eq {s s' : Playback β × World β} (h : Stages s s') :
    s'.1.identity = s.1.identity := by
  induction h with
  | refl => rfl
  | tail _ hs ih => exact hs.identity.trans ih

theorem Stages.config_eq {s s' : Playback β × World β} (h : Stages s s') :
    s'.2.config = s.2.config := by
  induction h with
  | refl => rfl
  | tail _ hs ih => exact hs.config.trans ih

theorem Stages.id_eq {s s' : Playback β × World β} (h : Stages s s') : s'.1.id = s.1.id :=
  congrArg Playback.Identity.id h.identity_eq

/-- Nothing is heard of others. -/
theorem Stages.eventsOf_eq {s s' : Playback β × World β} (h : Stages s s') {id : Nat}
    (hid : id ≠ s.1.id) : s'.2.eventsOf id = s.2.eventsOf id := by
  induction h with
  | refl => rfl
  | tail hs hstage ih =>
    rw [← Stages.id_eq hs] at hid
    exact (hstage.others id hid).trans ih

/-- A change of one node changes no list of what it leaves alone. -/
theorem Playback.map_modifyNode {α : Type} {p : Playback β} {index : Nat} {f : Node β → Node β}
    (g : Node β → α) (hf : ∀ n, p.nodes[index]? = some n → g (f n) = g n) :
    (p.modifyNode index f).nodes.map g = p.nodes.map g := by
  unfold modifyNode
  refine List.ext_getElem? fun i => ?_
  rw [List.getElem?_map, List.getElem?_map, List.getElem?_modify]
  split_ifs with hi
  · subst hi
    cases hn : p.nodes[index]? with
    | none => rfl
    | some n => simp [hf n hn]
  · cases p.nodes[i]? <;> rfl

/-- All nodes behave in a certain way. -/
def Playback.Behaves (S : β → Prop) (p : Playback β) : Prop :=
  ∀ n ∈ p.nodes, ∀ b, n.behaviour = some b → S b

theorem Playback.Behaves.modifyNode {S : β → Prop} {p : Playback β} (h : p.Behaves S) {index : Nat}
    {f : Node β → Node β}
    (hf : ∀ n ∈ p.nodes, ∀ b, (f n).behaviour = some b → S b) :
    (p.modifyNode index f).Behaves S := by
  intro n hn b hb
  obtain ⟨i, hi, rfl⟩ := List.mem_iff_getElem.mp hn
  simp only [Playback.modifyNode, List.getElem_modify] at hb
  have hi' : i < p.nodes.length := by
    rw [Playback.modifyNode, List.length_modify] at hi
    exact hi
  split_ifs at hb with hindex
  · exact hf _ (List.getElem_mem hi') b hb
  · exact h _ (List.getElem_mem hi') b hb

/-- A stage at which nothing happens that anyone hears of. -/
theorem Stage.of_quiet {p p' : Playback β} {w w' : World β} (hi : p'.identity = p.identity)
    (hp : p'.phase = p.phase) (hr : p.phase = .paused → p'.resumePoints = p.resumePoints)
    (hw : w.Quiet w') : Stage (p, w) (p', w') where
  identity := hi
  clock := hw.clock
  config := hw.config
  sceneLoading := hw.sceneLoading
  others id _ := hw.events id
  passage := by
    refine ⟨[], ?_, ?_⟩
    · rw [hw.registry]
      exact .calm hp hr
    · rw [hw.events, List.append_nil]

theorem Playback.registry_kill (p : Playback β) (w : World β) :
    (p.kill w).2.registry = w.registry.drop p.id := by
  unfold kill
  dsimp only
  split_ifs <;> rfl

theorem Playback.eventsOf_kill (p : Playback β) (w : World β) :
    (p.kill w).2.eventsOf p.id =
      w.eventsOf p.id ++ if p.isActive then [.ended true] else [] := by
  unfold kill
  dsimp only
  split_ifs
  · rw [World.eventsOf_emit_self, World.eventsOf_withRegistry]
  · exact (List.append_nil _).symm

/-- A playback that is killed stops, and is told to have ended if it was active. -/
theorem Stage.kill (p : Playback β) (w : World β) : Stage (p, w) (p.kill w) := by
  have hpass : Passage p (p.kill w).1 w.registry (w.registry.drop p.id)
      (if p.isActive then [.ended true] else []) := .killed rfl
  unfold Playback.kill at hpass ⊢
  by_cases hp : p.isActive
  · simp only [hp, if_true] at hpass ⊢
    refine ⟨rfl, rfl, rfl, rfl, fun id hid => ?_, [.ended true], hpass, ?_⟩
    · rw [World.eventsOf_emit_of_ne _ _ _ hid, World.eventsOf_withRegistry]
    · rw [World.eventsOf_emit_self, World.eventsOf_withRegistry]
  · simp only [hp, Bool.false_eq_true, if_false] at hpass ⊢
    exact ⟨rfl, rfl, rfl, rfl, fun _ _ => rfl, [], hpass, (List.append_nil _).symm⟩

/-! ### The stages of a turn -/

namespace Turn

/-- The playback at work and the world around it. -/
def view (t : Turn β) : Playback β × World β := (t.playback, t.world)

/-- Only branches and nodes of the playback, variables, commands and the journal have changed. -/
structure Calm (t u : Turn β) : Prop where
  identity : u.playback.identity = t.playback.identity
  phase : u.playback.phase = t.playback.phase
  skipping : u.playback.skipping = t.playback.skipping
  pauseRequested : u.playback.pauseRequested = t.playback.pauseRequested
  world : t.world.Quiet u.world

theorem Calm.refl (t : Turn β) : t.Calm t := ⟨rfl, rfl, rfl, rfl, .refl _⟩

theorem Calm.trans {t u v : Turn β} (h : t.Calm u) (h' : u.Calm v) : t.Calm v where
  identity := h'.identity.trans h.identity
  phase := h'.phase.trans h.phase
  skipping := h'.skipping.trans h.skipping
  pauseRequested := h'.pauseRequested.trans h.pauseRequested
  world := h.world.trans h'.world

theorem Calm.stage {t u : Turn β} (h : t.Calm u) (hp : t.playback.phase = .running) :
    Stage t.view u.view :=
  .of_quiet h.identity h.phase (fun hpaused => by simp [hp] at hpaused) h.world

theorem Calm.stages {t u : Turn β} (h : t.Calm u) (hp : t.playback.phase = .running) :
    Stages t.view u.view :=
  .single (h.stage hp)

theorem calm_called (t : Turn β) (form : Call.Form) (index : Nat) (b : β) (o : Outcome β)
    (running : Bool) : t.Calm (t.called form index b o running) := by
  have hcall : t.world.Quiet (t.noteCall form index b).world := World.quiet_note_call _ _
  exact ⟨rfl, rfl, rfl, rfl, hcall.trans (World.quiet_absorb _ o)⟩

theorem calm_push (t : Turn β) (b : Branch) : t.Calm (t.push b) := ⟨rfl, rfl, rfl, rfl, .refl _⟩

theorem calm_defer (t : Turn β) (b : Branch) : t.Calm (t.defer b) := ⟨rfl, rfl, rfl, rfl, .refl _⟩

theorem calm_suspend (t : Turn β) (index : Nat) (wait : Float32) :
    t.Calm (t.suspend index wait) :=
  calm_defer _ _

theorem calm_recalled (t : Turn β) (index : Nat) : t.Calm (t.recalled index) :=
  ⟨rfl, rfl, rfl, rfl, .refl _⟩

theorem calm_follow (t : Turn β) (index : Nat) (ending : Ending) :
    t.Calm (t.follow index ending).1 := by
  cases ending with
  | start graph =>
    by_cases hg : graph = t.playback.graph
    · simp only [follow, hg, if_true]
      exact Calm.refl t
    · simp only [follow, hg, if_false]
      exact ⟨rfl, rfl, rfl, rfl, World.quiet_raise _ _⟩
  | _ => exact Calm.refl t

theorem calm_followAll (t : Turn β) (index : Nat) (endings : List Ending) :
    t.Calm (t.followAll index endings).1 := by
  induction endings generalizing t with
  | nil => exact Calm.refl t
  | cons ending rest ih =>
    have hf := t.calm_follow index ending
    rw [followAll]
    rcases h : t.follow index ending with ⟨u, _ | b⟩ <;> rw [h] at hf <;> dsimp only
    · exact hf.trans (ih u)
    · split_ifs
      · have hpush := hf.trans (u.calm_push b)
        exact hpush.trans (ih _)
      · have hdefer := hf.trans (u.calm_defer b)
        exact hdefer.trans (ih _)

theorem calm_endingAt (t : Turn β) (node : Node β) (output : Int) :
    t.Calm (t.endingAt node output).1 := by
  unfold endingAt
  split
  · exact Calm.refl t
  · exact ⟨rfl, rfl, rfl, rfl, World.quiet_notice _ _⟩

section

variable [Behaviour β]

theorem calm_chosen (t : Turn β) (index : Nat) (node : Node β) (b : β) :
    t.Calm (t.chosen index node b) := by
  have hcall : t.world.Quiet (t.noteCall .choose index b).world := World.quiet_note_call _ _
  exact ⟨rfl, rfl, rfl, rfl, hcall.trans (World.quiet_absorbChoice _ (t.choice index b))⟩

theorem calm_resolve (t : Turn β) (index : Nat) (node : Node β) (b : β) :
    t.Calm (t.resolve index node b).1 := by
  by_cases h : Behaviour.outputs b = 0
  · rw [resolve_of_outputs_eq_zero t index node h]
    exact Calm.refl t
  · cases hm : t.recalled? node b with
    | some output =>
      rw [resolve_of_recalled index h hm]
      exact (t.calm_recalled index).trans (calm_endingAt _ _ _)
    | none =>
      rw [resolve_of_choice index h hm]
      exact (t.calm_chosen index node b).trans (calm_endingAt _ _ _)

theorem calm_endings (t : Turn β) (index : Nat) (node : Node β) :
    t.Calm (t.endings index node).1 := by
  unfold endings
  split
  · exact Calm.refl t
  · split_ifs
    · exact Calm.refl t
    · exact t.calm_resolve index node _

end

theorem calm_rest (t : Turn β) (index : Nat) : t.Calm (t.rest index) :=
  ⟨rfl, rfl, rfl, rfl, .refl _⟩

theorem calm_keep (t : Turn β) (index : Nat) : t.Calm (t.keep index) :=
  ⟨rfl, rfl, rfl, rfl, .refl _⟩

/-! Only three things end the calm: the end of the run, a pause that takes effect, and the limit of
a skip. -/

theorem endRun_world (t : Turn β) :
    t.endRun.world.clock = t.world.clock ∧ t.endRun.world.config = t.world.config ∧
      t.endRun.world.sceneLoading = t.world.sceneLoading ∧
      t.endRun.world.registry = t.world.registry.drop t.playback.id := by
  unfold endRun
  dsimp only
  split <;> exact ⟨rfl, rfl, rfl, rfl⟩

theorem eventsOf_endRun (t : Turn β) (id : Nat) :
    t.endRun.world.eventsOf id = t.world.eventsOf id ++
      if t.playback.id = id then closing t.playback.conversation else [] := by
  unfold endRun closing
  dsimp only
  split
  · rename_i conversation hc
    rw [World.eventsOf_emit, World.eventsOf_emit, World.eventsOf_withRegistry, hc,
      List.append_assoc]
    dsimp only
    split_ifs <;> rfl
  · rename_i hc
    rw [World.eventsOf_emit, World.eventsOf_withRegistry, hc]
    rfl

theorem stage_endRun (t : Turn β) (h : t.playback.phase = .running) :
    Stage t.view t.endRun.view := by
  obtain ⟨hclock, hconfig, hscene, hreg⟩ := t.endRun_world
  refine ⟨rfl, hclock, hconfig, hscene, fun id hid => ?_, closing t.playback.conversation, ?_, ?_⟩
  · have hne : t.playback.id ≠ id := Ne.symm hid
    exact (t.eventsOf_endRun id).trans (by simp [view, hne])
  · rw [view, view, hreg]
    exact .ended h rfl
  · exact (t.eventsOf_endRun _).trans (by simp [view])

theorem stage_endPause (t : Turn β) (h : t.playback.phase = .running) :
    Stage t.view t.endPause.view :=
  ⟨rfl, rfl, rfl, rfl, fun _ hid => World.eventsOf_emit_of_ne _ _ _ hid,
    [.paused t.playback.resumePoints], .paused _ h rfl, World.eventsOf_emit_self _ _ _⟩

theorem stages_settle (t : Turn β) (h : t.playback.phase = .running) :
    Stages t.view t.settle.view := by
  unfold settle
  split_ifs
  · -- Something is left to be done.
    exact .refl
  · exact .single (t.stage_endPause h)
  · exact .single (t.stage_endRun h)

/-- Counting a hop is calm unless it exceeds the limit. -/
theorem hop_cases (t : Turn β) :
    t.hop.2 = true ∧ t.Calm t.hop.1 ∧ t.hop.1.playback.nodes = t.playback.nodes ∧
        t.hop.1.playback.pending = t.playback.pending ∧ t.hop.1.ready = t.ready ∨
      t.hop.2 = false ∧ t.playback.skipping = true ∧ ∃ u, t.Calm u ∧
        t.hop.1.view = u.playback.kill u.world := by
  unfold hop
  dsimp only
  split_ifs with hs hlimit
  · have hquiet := t.world.quiet_notice .hopLimitExceeded
    refine Or.inr ⟨rfl, hs, { t with
      playback := { t.playback with hops := t.playback.hops + 1 }
      world := t.world.notice .hopLimitExceeded }, ⟨rfl, rfl, rfl, rfl, hquiet⟩, rfl⟩
  · exact Or.inl ⟨rfl, ⟨rfl, rfl, rfl, rfl, .refl _⟩, rfl, rfl, rfl⟩
  · exact Or.inl ⟨rfl, .refl t, rfl, rfl, rfl⟩

variable [Behaviour β]

theorem stages_leave (t : Turn β) (index : Nat) (node : Node β)
    (h : t.playback.phase = .running) : Stages t.view (t.leave index node).view := by
  have hcalm := (t.calm_endings index node).trans
    (calm_followAll _ index (t.endings index node).2)
  unfold leave
  rcases hf : (t.endings index node).1.followAll index (t.endings index node).2 with ⟨u, _ | _⟩ <;>
    rw [hf] at hcalm
  · exact (hcalm.stages h).trans (u.stages_settle (hcalm.phase.trans h))
  · exact hcalm.stages h

theorem stages_finish (t : Turn β) (index : Nat) (h : t.playback.phase = .running) :
    Stages t.view (t.finish index).view := by
  cases hn : t.playback.nodes[index]? with
  | none =>
    rw [finish_of_none hn]
    exact t.stages_settle h
  | some node =>
    cases hp : t.playback.pauseRequested with
    | false =>
      have hrest := (t.calm_rest index).stages h
      rw [finish_of_following hn hp]
      exact hrest.trans (stages_leave _ index node h)
    | true =>
      have hkeep := ((t.calm_rest index).trans (calm_keep _ index)).stages h
      rw [finish_of_pauseRequested hn hp]
      split_ifs
      · exact hkeep.tail (stage_endPause _ h)
      · exact hkeep

theorem stages_enter (t : Turn β) (index : Nat) (b : β) (h : t.playback.phase = .running) :
    Stages t.view (t.enter index b).view := by
  cases hs : t.playback.skipping with
  | true =>
    have hcall := t.calm_called .skip index (t.assigned b)
      (t.skipOutcome index (t.assigned b)) false
    rw [enter_of_skipping hs]
    exact (hcall.stages h).trans (stages_finish _ index h)
  | false =>
    have hcall := t.calm_called .run index (t.assigned b)
      (t.runOutcome index false (t.assigned b)) (t.runOutcome index false (t.assigned b)).running
    rw [enter_of_playing hs]
    dsimp only
    split_ifs
    · exact (hcall.trans (calm_suspend ..)).stages h
    · exact (hcall.stages h).trans (stages_finish _ index h)

theorem stages_visit (t : Turn β) (index : Nat) (h : t.playback.phase = .running) :
    Stages t.view (t.visit index).view := by
  rcases t.hop_cases with ⟨hhop, hcalm, -⟩ | ⟨hhop, -, u, hcalm, hkill⟩
  · have hrun : t.hop.1.playback.phase = .running := hcalm.phase.trans h
    refine (hcalm.stages h).trans ?_
    cases hn : t.hop.1.playback.nodes[index]? with
    | none =>
      rw [visit_of_none hhop hn]
      exact stages_settle _ hrun
    | some node =>
      cases he : node.enabled with
      | false =>
        rw [visit_of_not_runnable hhop hn (Or.inl he)]
        exact (calm_push ..).stages hrun
      | true =>
        cases hb : node.behaviour with
        | none =>
          rw [visit_of_not_runnable hhop hn (Or.inr hb)]
          exact (calm_push ..).stages hrun
        | some b =>
          rw [visit_of_runnable hhop hn he hb]
          exact stages_enter _ index b hrun
  · -- The hop counts and is told of before the playback is killed.
    rw [visit_of_killed hhop, hkill]
    exact (hcalm.stages h).tail (Stage.kill _ _)

theorem stages_poll (t : Turn β) (index : Nat) (h : t.playback.phase = .running) :
    Stages t.view (t.poll index).view := by
  cases hn : t.playback.nodes[index]? with
  | none =>
    rw [poll_of_none hn]
    exact t.stages_settle h
  | some node =>
    cases hb : node.behaviour with
    | none =>
      rw [poll_of_behaviour_none hn hb]
      exact t.stages_finish index h
    | some b =>
      rw [poll_of_some hn hb]
      dsimp only
      -- How the call is noted does not matter.
      generalize (if node.running then Call.Form.poll else .run) = form
      have hcall := t.calm_called form index b (t.runOutcome index node.running b)
        (t.runOutcome index node.running b).running
      split_ifs
      · exact (hcall.trans (calm_suspend ..)).stages h
      · exact (hcall.stages h).trans (stages_finish _ index h)

theorem stages_advance (t : Turn β) (b : Branch) (h : t.playback.phase = .running) :
    Stages t.view (t.advance b).view := by
  unfold advance
  cases b.step with
  | visit => exact t.stages_visit b.index h
  | poll => exact t.stages_poll b.index h
  | resolve => exact t.stages_finish b.index h

/-- A turn is a sequence of stages. -/
theorem stages_run {fuel : Nat} {t : Turn β} {r : Playback β × World β}
    (h : t.run fuel = some r) : Stages t.view r := by
  induction fuel generalizing t with
  | zero =>
    rw [run] at h
    split_ifs at h
    obtain rfl := Option.some.inj h
    exact .refl
  | succ fuel ih =>
    rw [run] at h
    split at h
    · obtain rfl := Option.some.inj h
      exact .refl
    · rename_i b rest _
      split_ifs at h with hp
      · have hbranch := stages_advance { t with ready := rest } b hp
        exact hbranch.trans (ih h)
      · -- The branch before this one has stopped the playback.
        obtain rfl := Option.some.inj h
        exact .refl

end Turn

end Cutscene
