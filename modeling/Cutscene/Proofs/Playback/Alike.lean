import Cutscene.Proofs.Playback.Operation

/-!
# Turns side by side

`Turn.Alike` relates a turn that skips to one that plays: both are at the same nodes, in the same
state but for memos, and have come to the same variables and commands, but for how graphs are
started. As long as behaviours do at once what they do (`Turn.ActsAtOnce`) and no ending holds a
branch back (`Playback.IsDirect`), alike turns stay alike until both are over. That is
`Turn.Abreast`, and `Alike.visit` is the step that keeps it.
-/

namespace Cutscene

variable {β : Type}

/-! ### What a skip and a run may differ in -/

/-- A command but for how a graph is started: to run or to be skipped. -/
def Command.plain : Command → Command
  | .start graph node queue _ => .start graph node queue false
  | command => command

/-- Two calls leave the same behaviour and variables and raise the same commands, but for how graphs
are started. -/
structure Outcome.SameEffect (o o' : Outcome β) : Prop where
  behaviour : o.behaviour = o'.behaviour
  vars : o.vars = o'.vars
  commands : o.commands.map Command.plain = o'.commands.map Command.plain

/-- A node but for its memo and whether it is in the middle of its execution. -/
def Node.face (n : Node β) : Node β := { n with running := false, memo := none }

theorem Node.face_eq_iff {n m : Node β} :
    n.face = m.face ↔ n.id = m.id ∧ n.kind = m.kind ∧ n.title = m.title ∧
      n.enabled = m.enabled ∧ n.endings = m.endings ∧ n.behaviour = m.behaviour := by
  obtain ⟨⟩ := n
  obtain ⟨⟩ := m
  simp [Node.face]

/-- An ending of a node that does not hold a branch back: it neither leads back to the node itself
nor to the beginning of a graph with a delay. -/
def Playback.IsDirect (p : Playback β) (index : Nat) (ending : Ending) : Prop :=
  ending ≠ .goto index ∧ (ending = .start p.graph → ¬ 0 < p.settings.startDelay)

namespace Turn

/-- What a behaviour chooses does not depend on whether it is told that the playback skips. -/
def ChoosesBlindly [Behaviour β] (t : Turn β) (index : Nat) (vars : Variables) (b : β) : Prop :=
  ∀ skipping, Behaviour.choose { t.choiceContext index with skipping } vars b =
    Behaviour.choose (t.choiceContext index) vars b

/-- A behaviour does the same at once when a turn comes to it, whether it is run or skipped. It does
not go by what would tell it that the playback skips: by its being told so, or by the graphs that
are to be skipped among those that wait to be started. -/
structure ActsAtOnce [Behaviour β] (t : Turn β) (index : Nat) (b : β) : Prop where
  finishes :
    ((t.runOutcome index false b).running && (t.runOutcome index false b).wait != 0) = false
  sameEffect : (t.skipOutcome index b).SameEffect (t.runOutcome index false b)
  blind : ∀ skipping commands, commands.map Command.plain = t.world.commands.map Command.plain →
    Behaviour.run { t.context index false with skipping, commands } t.world.vars b =
      t.runOutcome index false b
  blindChoice : t.ChoosesBlindly index (t.runOutcome index false b).vars
    (t.runOutcome index false b).behaviour

end Turn

/-! ### Worlds, playbacks and turns that are alike -/

/-- The world of a skip and the world of a run, of which different things have been heard. -/
structure World.Alike (id : Nat) (heard heard' : List Event.Kind) (w w' : World β) : Prop where
  clock : w.clock = w'.clock
  vars : w.vars = w'.vars
  graphs : w.registry.isGraphRunning = w'.registry.isGraphRunning
  commands : w.commands.map Command.plain = w'.commands.map Command.plain
  runs : w.runsOf id = w'.runsOf id
  skipped : w.eventsOf id = heard
  played : w'.eventsOf id = heard'

/-- A playback that skips and one that plays. -/
structure Playback.Alike (p q : Playback β) : Prop where
  identity : p.identity = q.identity
  parameters : p.parameters = q.parameters
  nodes : p.nodes.map Node.face = q.nodes.map Node.face
  /-- A skip of its own remembers no choices. -/
  unremembered : ∀ n ∈ p.nodes, n.memo = none
  direct : ∀ index n, p.nodes[index]? = some n → ∀ ending ∈ n.endings, p.IsDirect index ending
  running : p.phase = .running ∧ q.phase = .running
  skipping : p.skipping = true ∧ q.skipping = false
  unasked : p.pauseRequested = false ∧ q.pauseRequested = false
  pending : p.pending = [] ∧ q.pending = []

/-- A turn that skips and one that plays. -/
structure Turn.Alike (heard heard' : List Event.Kind) (t u : Turn β) : Prop where
  playback : t.playback.Alike u.playback
  world : World.Alike t.playback.id heard heard' t.world u.world
  ready : t.ready = u.ready
  visits : ∀ b ∈ t.ready, b.step = .visit

/-- Alike turns go on, or both have come to the end of the run. -/
inductive Turn.Abreast (heard heard' : List Event.Kind) (t u : Turn β) : Prop
  | going (h : Alike heard heard' t u)
  | ended {t₀ u₀ : Turn β} (h : Alike heard heard' t₀ u₀) (ht : t = t₀.endRun) (hu : u = u₀.endRun)

namespace World.Alike

variable {id : Nat} {heard heard' : List Event.Kind} {w w' : World β}

theorem noticeAll (h : World.Alike id heard heard' w w') (notices notices' : List Notice) :
    World.Alike id heard heard' (w.noticeAll notices) (w'.noticeAll notices') where
  clock := by rw [noticeAll_eq, noticeAll_eq]; exact h.clock
  vars := by rw [noticeAll_eq, noticeAll_eq]; exact h.vars
  graphs := by rw [noticeAll_eq, noticeAll_eq]; exact h.graphs
  commands := by rw [noticeAll_eq, noticeAll_eq]; exact h.commands
  runs := by rw [runsOf_noticeAll, runsOf_noticeAll]; exact h.runs
  skipped := ((w.quiet_noticeAll notices).events id).trans h.skipped
  played := ((w'.quiet_noticeAll notices').events id).trans h.played

theorem noteCall (h : World.Alike id heard heard' w w') {c c' : Call β}
    (hc : (Entry.call c).runFor? id = (Entry.call c').runFor? id) :
    World.Alike id heard heard' (w.note (.call c)) (w'.note (.call c')) where
  clock := h.clock
  vars := h.vars
  graphs := h.graphs
  commands := h.commands
  runs := by rw [runsOf_note, runsOf_note, h.runs, hc]
  skipped := ((w.quiet_note_call c).events id).trans h.skipped
  played := ((w'.quiet_note_call c').events id).trans h.played

theorem raise (h : World.Alike id heard heard' w w') {c c' : Command}
    (hc : c.plain = c'.plain) :
    World.Alike id heard heard' (w.raise c) (w'.raise c') where
  clock := h.clock
  vars := h.vars
  graphs := h.graphs
  commands := by
    simp only [World.raise, List.map_append, List.map_cons, List.map_nil, h.commands, hc]
  runs := h.runs
  skipped := h.skipped
  played := h.played

theorem absorb (h : World.Alike id heard heard' w w') {o o' : Outcome β} (ho : o.SameEffect o') :
    World.Alike id heard heard' (w.absorb o) (w'.absorb o') := by
  have hcommands : (w.commands ++ o.commands).map Command.plain =
      (w'.commands ++ o'.commands).map Command.plain := by
    rw [List.map_append, List.map_append, h.commands, ho.commands]
  have heffect : World.Alike id heard heard'
      { w with vars := o.vars, commands := w.commands ++ o.commands }
      { w' with vars := o'.vars, commands := w'.commands ++ o'.commands } :=
    ⟨h.clock, ho.vars, h.graphs, hcommands, h.runs, h.skipped, h.played⟩
  exact heffect.noticeAll _ _

theorem absorbChoice (h : World.Alike id heard heard' w w') (c : Choice β) :
    World.Alike id heard heard' (w.absorbChoice c) (w'.absorbChoice c) := by
  have heffect : World.Alike id heard heard' { w with vars := c.vars } { w' with vars := c.vars } :=
    ⟨h.clock, rfl, h.graphs, h.commands, h.runs, h.skipped, h.played⟩
  exact heffect.noticeAll _ _

end World.Alike

namespace Playback.Alike

variable {p q : Playback β}

theorem id_eq (h : p.Alike q) : p.id = q.id := congrArg Identity.id h.identity

theorem graph_eq (h : p.Alike q) : p.graph = q.graph := congrArg Identity.graph h.identity

theorem settings_eq (h : p.Alike q) : p.settings = q.settings :=
  congrArg Identity.settings h.identity

theorem getElem?_eq_none (h : p.Alike q) {index : Nat} (hn : p.nodes[index]? = none) :
    q.nodes[index]? = none := by
  have hface := congrArg (·[index]?) h.nodes
  simpa [hn] using hface.symm

theorem getElem?_eq_some (h : p.Alike q) {index : Nat} {n : Node β}
    (hn : p.nodes[index]? = some n) : ∃ m, q.nodes[index]? = some m ∧ n.face = m.face := by
  have hface := congrArg (·[index]?) h.nodes
  simp only [List.getElem?_map, hn, Option.map_some] at hface
  obtain ⟨m, hm, heq⟩ := Option.map_eq_some_iff.mp hface.symm
  exact ⟨m, hm, heq.symm⟩

/-- The same node is changed in both, and only in ways that its face shows alike. -/
theorem modifyNode (h : p.Alike q) (index : Nat) {f g : Node β → Node β}
    (hface : ∀ n m, n.face = m.face → (f n).face = (g m).face)
    (hmemo : ∀ n, n.memo = none → (f n).memo = none) (hendings : ∀ n, (f n).endings = n.endings) :
    (p.modifyNode index f).Alike (q.modifyNode index g) where
  identity := h.identity
  parameters := h.parameters
  nodes := by
    refine List.ext_getElem? fun i => ?_
    have hi := congrArg (·[i]?) h.nodes
    simp only [List.getElem?_map] at hi
    simp only [Playback.modifyNode, List.getElem?_map, List.getElem?_modify]
    -- Both have a node there, or neither has.
    cases hn : p.nodes[i]? <;> cases hm : q.nodes[i]? <;> simp only [hn, hm] at hi ⊢ <;>
      simp at hi ⊢
    split_ifs
    · exact hface _ _ hi
    · exact hi
  unremembered n hn := by
    obtain ⟨i, hi⟩ := List.mem_iff_getElem?.mp hn
    simp only [Playback.modifyNode, List.getElem?_modify] at hi
    obtain ⟨m, hm, rfl⟩ := Option.map_eq_some_iff.mp hi
    have hmnone := h.unremembered m (List.mem_of_getElem? hm)
    split_ifs
    · exact hmemo m hmnone
    · exact hmnone
  direct i n hn ending hending := by
    simp only [Playback.modifyNode, List.getElem?_modify] at hn
    obtain ⟨m, hm, rfl⟩ := Option.map_eq_some_iff.mp hn
    refine h.direct i m hm ending ?_
    split_ifs at hending
    · rw [hendings] at hending
      exact hending
    · exact hending
  running := h.running
  skipping := h.skipping
  unasked := h.unasked
  pending := h.pending

end Playback.Alike

theorem Playback.IsDirect.congr {p q : Playback β} {index : Nat} {ending : Ending}
    (h : p.IsDirect index ending) (hi : q.identity = p.identity) : q.IsDirect index ending := by
  unfold IsDirect at h ⊢
  rw [show q.graph = p.graph from congrArg Identity.graph hi,
    show q.settings = p.settings from congrArg Identity.settings hi]
  exact h

/-! ### Following endings side by side -/

namespace Turn

/-- A choice is made without a look at the commands, so those that are raised before it make no
difference to it. -/
theorem Calm.choiceContext {t u : Turn β} (h : t.Calm u) (index : Nat) :
    u.choiceContext index = t.choiceContext index := by
  unfold Turn.choiceContext Turn.context
  rw [show u.playback.id = t.playback.id from congrArg Playback.Identity.id h.identity,
    show u.playback.graph = t.playback.graph from congrArg Playback.Identity.graph h.identity,
    h.skipping, h.world.clock, h.world.registry]

namespace Alike

variable {heard heard' : List Event.Kind} {t u : Turn β}

/-- A behaviour sees the same, but for whether the playback skips and how graphs are started. -/
theorem context (h : Alike heard heard' t u) (index : Nat) (running : Bool) :
    u.context index running =
      { t.context index running with skipping := false, commands := u.world.commands } := by
  unfold Turn.context
  rw [← h.playback.id_eq, ← h.playback.graph_eq, h.playback.skipping.2, ← h.world.clock,
    ← h.world.graphs]

theorem choiceContext (h : Alike heard heard' t u) (index : Nat) :
    u.choiceContext index = { t.choiceContext index with skipping := false } := by
  unfold Turn.choiceContext
  rw [h.context]

theorem push (h : Alike heard heard' t u) {b : Branch} (hb : b.step = .visit) :
    Alike heard heard' (t.push b) (u.push b) where
  playback := h.playback
  world := h.world
  ready := congrArg (· ++ [b]) h.ready
  visits c hc := by
    rcases List.mem_append.mp hc with hc | hc
    · exact h.visits c hc
    · rw [List.mem_singleton.mp hc, hb]

theorem rest (h : Alike heard heard' t u) (index : Nat) :
    Alike heard heard' (t.rest index) (u.rest index) where
  playback := h.playback.modifyNode index (fun _ _ hface => hface) (fun _ hn => hn) fun _ => rfl
  world := h.world
  ready := h.ready
  visits := h.visits

/-- An ending that holds no branch back leads both to the same place at once. -/
theorem follow (h : Alike heard heard' t u) {index : Nat} {ending : Ending}
    (hd : t.playback.IsDirect index ending) :
    Alike heard heard' (t.follow index ending).1 (u.follow index ending).1 ∧
      (t.follow index ending).2 = (u.follow index ending).2 ∧
      ∀ b, (t.follow index ending).2 = some b → b.step = .visit ∧ b.wake = .now := by
  obtain ⟨hgoto, hstart⟩ := hd
  cases ending with
  | stop => exact ⟨h, rfl, by simp [Turn.follow]⟩
  | next => exact ⟨h, rfl, by simp [Turn.follow]⟩
  | goto target =>
    have hne : target ≠ index := by
      rintro rfl
      exact hgoto rfl
    simp only [Turn.follow, hne, decide_false, Bool.false_and, Bool.false_eq_true, if_false]
    exact ⟨h, by simp⟩
  | start graph =>
    by_cases hg : graph = t.playback.graph
    · have hdelay : ¬ 0 < u.playback.settings.startDelay := by
        rw [← h.playback.settings_eq]
        exact hstart (by rw [hg])
      have hg' : graph = u.playback.graph := hg.trans h.playback.graph_eq
      simp only [Turn.follow, if_pos hg, if_pos hg', h.playback.skipping, hdelay, Bool.not_true,
        Bool.and_false, decide_false, Bool.false_and, Bool.false_eq_true, if_false]
      exact ⟨h, by simp⟩
    · have hg' : graph ≠ u.playback.graph := by
        rw [← h.playback.graph_eq]
        exact hg
      simp only [Turn.follow, if_neg hg, if_neg hg']
      -- Another graph is started; only the skip has it skipped.
      exact ⟨⟨h.playback, h.world.raise rfl, h.ready, h.visits⟩, trivial, by simp⟩

theorem followAll (h : Alike heard heard' t u) {index : Nat} {endings : List Ending}
    (hd : ∀ ending ∈ endings, t.playback.IsDirect index ending) :
    Alike heard heard' (t.followAll index endings).1 (u.followAll index endings).1 ∧
      (t.followAll index endings).2 = (u.followAll index endings).2 := by
  induction endings generalizing t u with
  | nil => exact ⟨h, rfl⟩
  | cons ending rest ih =>
    obtain ⟨halike, hbranch, hnow⟩ := h.follow (hd ending List.mem_cons_self)
    have hcalm := t.calm_follow index ending
    rw [Turn.followAll, Turn.followAll]
    rcases ht : t.follow index ending with ⟨t', x⟩
    rcases hu : u.follow index ending with ⟨u', y⟩
    rw [ht, hu] at halike hbranch
    rw [ht] at hnow hcalm
    obtain rfl : x = y := hbranch
    have hd' : ∀ ending ∈ rest, t'.playback.IsDirect index ending := by
      intro e he
      exact (hd e (List.mem_cons_of_mem _ he)).congr hcalm.identity
    cases x with
    | none => exact ih halike hd'
    | some b =>
      obtain ⟨hstep, hwake⟩ := hnow b rfl
      dsimp only
      rw [if_pos hwake, if_pos hwake]
      exact ⟨(ih (halike.push hstep) hd').1, rfl⟩

theorem endingAt (h : Alike heard heard' t u) {n m : Node β} (hface : n.face = m.face)
    (output : Int) :
    Alike heard heard' (t.endingAt n output).1 (u.endingAt m output).1 ∧
      (t.endingAt n output).2 = (u.endingAt m output).2 ∧
      ((t.endingAt n output).2 ∈ n.endings ∨ (t.endingAt n output).2 = .stop) := by
  obtain ⟨-, -, -, -, hendings, -⟩ := Node.face_eq_iff.mp hface
  unfold Turn.endingAt
  rw [← hendings]
  cases hget : (if 0 ≤ output then n.endings[output.toNat]? else none) with
  | some ending =>
    refine ⟨h, rfl, Or.inl ?_⟩
    split_ifs at hget
    exact List.mem_of_getElem? hget
  | none =>
    exact ⟨⟨h.playback, h.world.noticeAll [_] [_], h.ready, h.visits⟩, rfl, Or.inr rfl⟩

variable [Behaviour β]

/-- A skip has no memo to go by, so both ask the behaviour. -/
theorem resolve (h : Alike heard heard' t u) (index : Nat) {n m : Node β}
    (hface : n.face = m.face) (hmemo : n.memo = none) {b : β}
    (hb : t.ChoosesBlindly index t.world.vars b) :
    Alike heard heard' (t.resolve index n b).1 (u.resolve index m b).1 ∧
      (t.resolve index n b).2 = (u.resolve index m b).2 ∧
      ((t.resolve index n b).2 ∈ n.endings ∨ (t.resolve index n b).2 = .stop) := by
  by_cases houtputs : Behaviour.outputs b = 0
  · rw [resolve_of_outputs_eq_zero t index n houtputs,
      resolve_of_outputs_eq_zero u index m houtputs]
    exact ⟨h, rfl, Or.inr rfl⟩
  · have hnone : t.recalled? n b = none := by
      unfold recalled?
      split_ifs
      · exact hmemo
      · rfl
    have hnone' : u.recalled? m b = none := by
      unfold recalled?
      rw [h.playback.skipping.2, Bool.false_and, if_neg Bool.false_ne_true]
    have hchoice : u.choice index b = t.choice index b := by
      unfold choice
      rw [h.choiceContext, ← h.world.vars]
      exact hb false
    -- Only the run remembers what was chosen, which no face shows.
    have hchosen : Alike heard heard' (t.chosen index n b) (u.chosen index m b) := by
      refine ⟨h.playback.modifyNode index (fun n m hnm => ?_) (fun _ _ => ?_) fun _ => rfl, ?_,
        h.ready, h.visits⟩
      · rw [Node.face_eq_iff] at hnm ⊢
        obtain ⟨hid, hkind, htitle, henabled, hendings, -⟩ := hnm
        exact ⟨hid, hkind, htitle, henabled, hendings, by rw [hchoice]⟩
      · simp [h.playback.skipping.1, hmemo]
      · have hcall : World.Alike t.playback.id heard heard' (t.noteCall .choose index b).world
            (u.noteCall .choose index b).world := h.world.noteCall (by simp [Entry.runFor?])
        have hworld : (u.chosen index m b).world =
            (u.noteCall .choose index b).world.absorbChoice (t.choice index b) := by
          rw [← hchoice]
          rfl
        rw [hworld]
        exact hcall.absorbChoice _
    rw [resolve_of_choice index houtputs hnone, resolve_of_choice index houtputs hnone', hchoice]
    exact hchosen.endingAt hface _

theorem endings (h : Alike heard heard' t u) (index : Nat) {n m : Node β}
    (hface : n.face = m.face) (hmemo : n.memo = none)
    (hb : ∀ b, n.behaviour = some b → t.ChoosesBlindly index t.world.vars b) :
    Alike heard heard' (t.endings index n).1 (u.endings index m).1 ∧
      (t.endings index n).2 = (u.endings index m).2 ∧
      ∀ ending ∈ (t.endings index n).2, ending ∈ n.endings ∨ ending = .stop := by
  obtain ⟨-, -, -, -, hendings, hbehaviour⟩ := Node.face_eq_iff.mp hface
  unfold Turn.endings
  rw [← hbehaviour]
  cases hn : n.behaviour with
  | none => exact ⟨h, rfl, fun ending he => Or.inr (List.mem_singleton.mp he)⟩
  | some b =>
    dsimp only
    split_ifs
    · rw [hendings]
      exact ⟨h, rfl, fun ending he => Or.inl (List.mem_of_mem_take he)⟩
    · obtain ⟨halike, heq, hmem⟩ := h.resolve index hface hmemo (hb b hn)
      refine ⟨halike, congrArg (fun e => [e]) heq, fun ending he => ?_⟩
      rw [List.mem_singleton.mp he]
      exact hmem

/-! ### Working off a branch side by side -/

omit [Behaviour β] in
theorem settle (h : Alike heard heard' t u) : Abreast heard heard' t.settle u.settle := by
  have hready := h.ready
  unfold Turn.settle
  rw [← hready, h.playback.unasked.1, h.playback.unasked.2, h.playback.pending.1,
    h.playback.pending.2, h.playback.running.1, h.playback.running.2]
  simp only [Bool.false_and, Bool.false_eq_true, if_false]
  split_ifs
  · exact .going h
  · exact .ended h rfl rfl

theorem leave (h : Alike heard heard' t u) (index : Nat) {n m : Node β}
    (hface : n.face = m.face) (hmemo : n.memo = none)
    (hd : ∀ ending ∈ n.endings, t.playback.IsDirect index ending)
    (hb : ∀ b, n.behaviour = some b → t.ChoosesBlindly index t.world.vars b) :
    Abreast heard heard' (t.leave index n) (u.leave index m) := by
  obtain ⟨halike, hsame, hmem⟩ := h.endings index hface hmemo hb
  have hdirect : ∀ ending ∈ (t.endings index n).2,
      (t.endings index n).1.playback.IsDirect index ending := by
    intro ending he
    refine Playback.IsDirect.congr ?_ (t.calm_endings index n).identity
    rcases hmem ending he with hn | rfl
    · exact hd ending hn
    · exact ⟨by simp, by simp⟩
  obtain ⟨hgo, hfound⟩ := halike.followAll hdirect
  unfold Turn.leave
  rw [← hsame]
  rcases ht : (t.endings index n).1.followAll index (t.endings index n).2 with ⟨t', found⟩
  rcases hu : (u.endings index m).1.followAll index (t.endings index n).2 with ⟨u', found'⟩
  rw [ht, hu] at hgo hfound
  obtain rfl : found = found' := hfound
  cases found with
  | true => exact .going hgo
  | false => exact hgo.settle

theorem finish (h : Alike heard heard' t u) (index : Nat)
    (hb : ∀ n b, t.playback.nodes[index]? = some n → n.behaviour = some b →
      t.ChoosesBlindly index t.world.vars b) :
    Abreast heard heard' (t.finish index) (u.finish index) := by
  cases hn : t.playback.nodes[index]? with
  | none =>
    rw [finish_of_none hn, finish_of_none (h.playback.getElem?_eq_none hn)]
    exact h.settle
  | some n =>
    obtain ⟨m, hm, hface⟩ := h.playback.getElem?_eq_some hn
    rw [finish_of_following hn h.playback.unasked.1, finish_of_following hm h.playback.unasked.2]
    exact (h.rest index).leave index hface (h.playback.unremembered n (List.mem_of_getElem? hn))
      (h.playback.direct index n hn) fun b => hb n b hn

omit [Behaviour β] in
/-- A node is skipped in one and run in the other, to the same effect. -/
theorem called (h : Alike heard heard' t u) (index : Nat) (b : β) {o o' : Outcome β}
    (ho : o.SameEffect o') (running : Bool) :
    Alike heard heard' (t.called .skip index b o false) (u.called .run index b o' running) where
  playback := by
    refine h.playback.modifyNode index (fun n m hnm => ?_) (fun _ hn => hn) fun _ => rfl
    rw [Node.face_eq_iff] at hnm ⊢
    obtain ⟨hid, hkind, htitle, henabled, hendings, -⟩ := hnm
    exact ⟨hid, hkind, htitle, henabled, hendings, congrArg some ho.behaviour⟩
  world := by
    have hcall : World.Alike t.playback.id heard heard' (t.noteCall .skip index b).world
        (u.noteCall .run index b).world :=
      h.world.noteCall (by simp [Entry.runFor?, h.playback.id_eq])
    exact hcall.absorb ho
  ready := h.ready
  visits := h.visits

theorem enter (h : Alike heard heard' t u) (index : Nat) {b : β}
    (hb : t.ActsAtOnce index (t.assigned b)) :
    Abreast heard heard' (t.enter index b) (u.enter index b) := by
  obtain ⟨hfinishes, heffect, hblind, hchoice⟩ := hb
  have hassigned : u.assigned b = t.assigned b := by
    unfold assigned
    rw [h.playback.parameters]
  have houtcome : u.runOutcome index false (t.assigned b) =
      t.runOutcome index false (t.assigned b) := by
    rw [← hblind false u.world.commands h.world.commands.symm, runOutcome, h.context,
      ← h.world.vars]
  rw [enter_of_skipping h.playback.skipping.1, enter_of_playing h.playback.skipping.2, hassigned,
    houtcome]
  dsimp only
  rw [if_neg (by rw [hfinishes]; exact Bool.false_ne_true)]
  refine (h.called index (t.assigned b) heffect _).finish index fun n b' hn hb' => ?_
  -- The node has the behaviour that the skip left, and the world its variables.
  have hbehaviour : b' = (t.runOutcome index false (t.assigned b)).behaviour := by
    simp only [Turn.called, Playback.modifyNode, List.getElem?_modify_eq] at hn
    obtain ⟨n', -, rfl⟩ := Option.map_eq_some_iff.mp hn
    exact (Option.some.inj hb').symm.trans heffect.behaviour
  have hvars : (t.called .skip index (t.assigned b) (t.skipOutcome index (t.assigned b))
      false).world.vars = (t.runOutcome index false (t.assigned b)).vars := by
    rw [← heffect.vars]
    simp only [Turn.called, World.absorb, World.noticeAll_eq]
  unfold ChoosesBlindly
  rw [hvars, hbehaviour, (t.calm_called .skip index (t.assigned b) _ false).choiceContext]
  exact hchoice

omit [Behaviour β] in
/-- Unless it is the last, a hop only counts. -/
theorem hop (h : Alike heard heard' t u) (hhop : t.hop.2 = true) :
    (∃ hops, t.hop.1 = { t with playback := { t.playback with hops } }) ∧ u.hop = (u, true) := by
  constructor
  · unfold Turn.hop at hhop ⊢
    simp only [h.playback.skipping.1, if_true] at hhop ⊢
    split_ifs at hhop ⊢
    exact ⟨_, rfl⟩
  · unfold Turn.hop
    simp only [h.playback.skipping.2, Bool.false_eq_true, if_false]

theorem visit (h : Alike heard heard' t u) (index : Nat) (hhop : t.hop.2 = true)
    (hb : ∀ n b, t.playback.nodes[index]? = some n → n.enabled = true → n.behaviour = some b →
      t.ActsAtOnce index (t.assigned b)) :
    Abreast heard heard' (t.visit index) (u.visit index) := by
  obtain ⟨⟨hops, hhops⟩, hu⟩ := h.hop hhop
  have hu₁ : u.hop.1 = u := congrArg Prod.fst hu
  have hu₂ : u.hop.2 = true := congrArg Prod.snd hu
  have halike : Alike heard heard' t.hop.1 u := by
    rw [hhops]
    exact ⟨⟨h.playback.identity, h.playback.parameters, h.playback.nodes, h.playback.unremembered,
      h.playback.direct, h.playback.running, h.playback.skipping, h.playback.unasked,
      h.playback.pending⟩, h.world, h.ready, h.visits⟩
  have hnodes : t.hop.1.playback.nodes = t.playback.nodes := by rw [hhops]
  cases hn : t.playback.nodes[index]? with
  | none =>
    rw [visit_of_none hhop (by rw [hnodes]; exact hn),
      visit_of_none hu₂ (by rw [hu₁]; exact h.playback.getElem?_eq_none hn), hu₁]
    exact halike.settle
  | some n =>
    obtain ⟨m, hm, hface⟩ := h.playback.getElem?_eq_some hn
    obtain ⟨-, -, -, henabled, -, hbehaviour⟩ := Node.face_eq_iff.mp hface
    have hn₁ : t.hop.1.playback.nodes[index]? = some n := by
      rw [hnodes]
      exact hn
    have hm₁ : u.hop.1.playback.nodes[index]? = some m := by
      rw [hu₁]
      exact hm
    have hpass : (n.enabled = false ∨ n.behaviour = none) →
        Abreast heard heard' (t.visit index) (u.visit index) := by
      intro hr
      have hr' : m.enabled = false ∨ m.behaviour = none := by
        rw [← henabled, ← hbehaviour]
        exact hr
      rw [visit_of_not_runnable hhop hn₁ hr, visit_of_not_runnable hu₂ hm₁ hr', hu₁]
      exact .going (halike.push rfl)
    cases he : n.enabled with
    | false => exact hpass (Or.inl he)
    | true =>
      cases hb' : n.behaviour with
      | none => exact hpass (Or.inr hb')
      | some b =>
        have hacts := hb n b hn he hb'
        rw [visit_of_runnable hhop hn₁ he hb',
          visit_of_runnable hu₂ hm₁ (henabled ▸ he) (hbehaviour ▸ hb'), hu₁]
        refine halike.enter index ?_
        -- Behaviours do not see how many hops have been counted.
        rw [hhops]
        exact ⟨hacts.finishes, hacts.sameEffect, hacts.blind, hacts.blindChoice⟩

end Alike

end Turn

end Cutscene
