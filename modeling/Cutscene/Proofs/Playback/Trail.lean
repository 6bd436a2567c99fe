import Cutscene.Proofs.Playback.Leading
import Cutscene.Proofs.Playback.Links
import Cutscene.Proofs.Playback.Memos
import Cutscene.Proofs.Playback.Updates

/-!
# The trail of a run

`Turn.paces` says what becomes of the node that a branch is taken up for: it is passed over,
entered, left through an ending. A turn is followed with the paces on the way (`Turn.Treads`), and a
run with those of all its updates (`Playback.Played`). As long as nodes take one output at a time,
what a run that has not ended yet has left behind is one way (`Playback.Way`) from the node that it
started at to the place where its branch is, and what the nodes remember are the outputs that were
taken on this way (`Playback.Remembers`, `Playback.Played.live`), if no node was entered twice.
-/

namespace Cutscene

variable {β : Type}

/-- What becomes of a node as a branch is taken up. -/
inductive Pace where
  /-- The node is passed over. -/
  | passed (index : Nat)
  /-- The node is run from the beginning, or skipped. -/
  | entered (index : Nat)
  /-- The node is done and left through an ending. -/
  | left (index : Nat) (ending : Ending)
deriving DecidableEq, Repr

/-- The node that is entered. -/
def Pace.entered? : Pace → Option Nat
  | .entered index => some index
  | _ => none

namespace Turn

variable [Behaviour β]

/-- What becomes of a node that is done. While a pause is requested it is not left. -/
def leavings (t : Turn β) (index : Nat) : List Pace :=
  if t.playback.pauseRequested then []
  else match t.playback.nodes[index]? with
    | none => []
    | some node => (t.exits index node).map (.left index)

/-- What becomes of the node that a branch is taken up for. -/
def paces (t : Turn β) (b : Branch) : List Pace :=
  match b.step with
  | .visit =>
    match t.hop with
    | (_, false) => []
    | (t, true) =>
      match t.playback.nodes[b.index]? with
      | none => []
      | some node =>
        match node.enabled, node.behaviour with
        | true, some behaviour =>
          .entered b.index ::
            if t.playback.skipping then
              (t.called .skip b.index (t.assigned behaviour)
                (t.skipOutcome b.index (t.assigned behaviour)) false).leavings b.index
            else if (t.runOutcome b.index false (t.assigned behaviour)).running &&
                (t.runOutcome b.index false (t.assigned behaviour)).wait != 0 then []
            else (t.ran b.index false (t.assigned behaviour)).leavings b.index
        | _, _ => [.passed b.index]
  | .poll =>
    match t.playback.nodes[b.index]? with
    | none => []
    | some node =>
      match node.behaviour with
      | none => t.leavings b.index
      | some behaviour =>
        if (t.runOutcome b.index node.running behaviour).running then []
        else (t.ran b.index node.running behaviour).leavings b.index
  | .resolve => t.leavings b.index

/-- A turn comes to another one branch by branch, with the paces on the way. -/
inductive Treads (t : Turn β) : List Pace → Turn β → Prop
  | refl : Treads t [] t
  | next {trail : List Pace} {u : Turn β} {b : Branch} {rest : List Branch}
    (h : Treads t trail u) (hp : u.playback.phase = .running) (hr : u.ready = b :: rest) :
    Treads t (trail ++ ({ u with ready := rest } : Turn β).paces b)
      (({ u with ready := rest } : Turn β).advance b)

variable {t u : Turn β} {trail : List Pace}

/-- What a run comes to is come to pace by pace. -/
theorem exists_treads_of_run {fuel : Nat} {r : Playback β × World β} (h : t.run fuel = some r) :
    ∃ trail u, t.Treads trail u ∧ r = u.view ∧ (u.ready = [] ∨ u.playback.phase ≠ .running) := by
  have hstep : ∀ (u : Turn β) (b : Branch) (rest : List Branch), (∃ trail, t.Treads trail u) →
      u.playback.phase = .running → u.ready = b :: rest →
      ∃ trail, t.Treads trail (({ u with ready := rest } : Turn β).advance b) := by
    rintro u b rest ⟨trail, hu⟩ hp hr
    exact ⟨_, hu.next hp hr⟩
  obtain ⟨u, ⟨trail, hu⟩, hr, hover⟩ := run_induction hstep ⟨[], .refl⟩ h
  exact ⟨trail, u, hu, hr, hover⟩

/-! ### Paces, case by case -/

variable {b : Branch} {node : Node β} {behaviour : β}

theorem leavings_of_single {index : Nat} {ending : Ending}
    (hpause : t.playback.pauseRequested = false) (hn : t.playback.nodes[index]? = some node)
    (hexits : t.exits index node = [ending]) : t.leavings index = [.left index ending] := by
  unfold leavings
  rw [hpause, if_neg Bool.false_ne_true, hn]
  dsimp only
  rw [hexits]
  rfl

theorem paces_of_not_runnable (hb : b.step = .visit) (h : t.hop.2 = true)
    (hn : t.hop.1.playback.nodes[b.index]? = some node) (hr : node.isRunnable = false) :
    t.paces b = [.passed b.index] := by
  rcases ht : t.hop with ⟨u, _ | _⟩ <;> rw [ht] at h hn
  · simp at h
  · simp only [paces, hb, ht, hn]
    rcases isRunnable_eq_false hr with hr | hr
    · rw [hr]
    · rw [hr]
      cases node.enabled <;> rfl

theorem paces_of_runnable (hb : b.step = .visit) (h : t.hop.2 = true)
    (hn : t.hop.1.playback.nodes[b.index]? = some node) (he : node.enabled = true)
    (hbehaviour : node.behaviour = some behaviour) :
    t.paces b = .entered b.index ::
      let behaviour := t.hop.1.assigned behaviour
      if t.hop.1.playback.skipping then
        (t.hop.1.called .skip b.index behaviour (t.hop.1.skipOutcome b.index behaviour)
          false).leavings b.index
      else if (t.hop.1.runOutcome b.index false behaviour).running &&
          (t.hop.1.runOutcome b.index false behaviour).wait != 0 then []
      else (t.hop.1.ran b.index false behaviour).leavings b.index := by
  rcases ht : t.hop with ⟨u, _ | _⟩ <;> rw [ht] at h hn
  · simp at h
  · simp only [paces, hb, ht, hn, he, hbehaviour]

theorem paces_of_poll (hb : b.step = .poll) (hn : t.playback.nodes[b.index]? = some node)
    (hbehaviour : node.behaviour = some behaviour) :
    t.paces b =
      if (t.runOutcome b.index node.running behaviour).running then []
      else (t.ran b.index node.running behaviour).leavings b.index := by
  simp only [paces, hb, hn, hbehaviour]

end Turn

namespace Playback

variable [Behaviour β]

/-- A run has been played from a node on and has come to some point by updates, whatever has
happened in the world in between, with the paces of all its turns. -/
inductive Played (p : Playback β) (w : World β) (start : Nat) (queue : Bool) :
    List Pace → Playback β × World β → Prop
  | played {trail : List Pace} {u : Turn β} (h : (p.playBeginning w start queue).Treads trail u)
    (hover : u.ready = [] ∨ u.playback.phase ≠ .running) : Played p w start queue trail u.view
  | updated {trail more : List Pace} {q : Playback β} {w' : World β} {u : Turn β}
    (h : Played p w start queue trail (q, w')) (hu : (q.beginning w' .update).Treads more u)
    (hover : u.ready = [] ∨ u.playback.phase ≠ .running) :
    Played p w start queue (trail ++ more) u.view
  | elsewhere {trail : List Pace} {q : Playback β} {w' : World β}
    (h : Played p w start queue trail (q, w')) (w'' : World β) :
    Played p w start queue trail (q, w'')

/-! ### Ways -/

omit [Behaviour β] in
/-- A way through the nodes of a playback: each of them is passed over, or entered and left through
an ending that leads to the next one. -/
inductive Way (p : Playback β) (start : Nat) : List Pace → Nat → Prop
  | here : Way p start [] start
  | passed {trail : List Pace} {index : Nat} {endings : List Ending} (h : Way p start trail index)
    (hn : p.plan[index]? = some (endings, false)) :
    Way p start (trail ++ [.passed index]) (index + 1)
  | left {trail : List Pace} {index target : Nat} {endings : List Ending} {ending : Ending}
    (h : Way p start trail index) (hn : p.plan[index]? = some (endings, true))
    (ht : p.target? index ending = some target) :
    Way p start (trail ++ [.entered index, .left index ending]) target

omit [Behaviour β] in
/-- Only nodes are left that have been entered. -/
theorem Way.entered_of_left {p : Playback β} {start index : Nat} {trail : List Pace}
    (h : p.Way start trail index) {i : Nat} {ending : Ending} (hi : .left i ending ∈ trail) :
    .entered i ∈ trail := by
  induction h with
  | here => exact absurd hi List.not_mem_nil
  | passed _ _ ih =>
    rcases List.mem_append.mp hi with hi | hi
    · exact List.mem_append_left _ (ih hi)
    · simp at hi
  | left _ _ _ ih =>
    rcases List.mem_append.mp hi with hi | hi
    · exact List.mem_append_left _ (ih hi)
    · simp only [List.mem_cons, reduceCtorEq, Pace.left.injEq, List.not_mem_nil, or_false,
        false_or] at hi
      rw [hi.1]
      exact List.mem_append_right _ List.mem_cons_self

/-- An output that a node has chosen stands for an ending. -/
structure Chose (S : Nat → β → Prop) (p : Playback β) (index : Nat) (ending : Ending)
    (output : Nat) : Prop where
  ending : ∃ endings, p.plan[index]? = some (endings, true) ∧ endings[output]? = some ending
  choice : ∃ b ctx vars, S index b ∧ (Behaviour.choose ctx vars b).output = output

/-- The nodes that have been left on a trail remember the outputs that they chose, and the others
nothing. -/
structure Remembers (S : Nat → β → Prop) (p : Playback β) (trail : List Pace)
    (nodes : List (Node β)) : Prop where
  left : ∀ index ending, .left index ending ∈ trail →
    ∃ output, memoAt nodes index = some output ∧ p.Chose S index ending output
  others : ∀ index, (∀ ending, .left index ending ∉ trail) → memoAt nodes index = none

variable {S : Nat → β → Prop} {p : Playback β} {trail more : List Pace}
  {nodes nodes' : List (Node β)}

/-- Only what is left matters, and what the nodes remember. -/
theorem Remembers.congr (h : p.Remembers S trail nodes)
    (hleft : ∀ i ending, .left i ending ∈ more ↔ .left i ending ∈ trail)
    (hsame : ∀ i, memoAt nodes' i = memoAt nodes i) : p.Remembers S more nodes' where
  left i ending hi := by
    rw [hsame]
    exact h.left i ending ((hleft i ending).mp hi)
  others i hi := by
    rw [hsame]
    exact h.others i fun ending hmem => hi ending ((hleft i ending).mpr hmem)

/-- A node that is left for the first time remembers what it has chosen. -/
theorem Remembers.leave (h : p.Remembers S trail nodes) {index output : Nat} {ending : Ending}
    (hnew : ∀ ending, .left index ending ∉ trail) (hchose : p.Chose S index ending output)
    (hmemo : ∀ i, memoAt nodes' i = if index = i then some output else memoAt nodes i) :
    p.Remembers S (trail ++ [.left index ending]) nodes' where
  left i ending' hi := by
    rw [hmemo]
    rcases List.mem_append.mp hi with hi | hi
    · -- Its node has not been left before, so the new memo is of another one.
      have hne : index ≠ i := fun heq => hnew ending' (heq ▸ hi)
      rw [if_neg hne]
      exact h.left i ending' hi
    · obtain ⟨rfl, rfl⟩ := Pace.left.inj (List.mem_singleton.mp hi)
      rw [if_pos rfl]
      exact ⟨output, rfl, hchose⟩
  others i hi := by
    have hne : index ≠ i := fun heq =>
      hi ending (heq ▸ List.mem_append_right _ (List.mem_singleton.mpr rfl))
    rw [hmemo, if_neg hne]
    exact h.others i fun ending hmem => hi ending (List.mem_append_left _ hmem)

/-! ### Runs that have not ended -/

omit [Behaviour β] in
/-- Where the one branch of a run is: on its way to a place, or at a node that has been entered. -/
inductive Located (p : Playback β) (start : Nat) (trail : List Pace) (b : Branch) : Prop
  | arriving (hb : b.step = .visit) (h : p.Way start trail b.index)
  | staying {before : List Pace} {endings : List Ending} (hb : b.step = .poll)
    (h : p.Way start before b.index) (hn : p.plan[b.index]? = some (endings, true))
    (ht : trail = before ++ [.entered b.index])

end Playback

namespace Turn

variable [Behaviour β] {S : Nat → β → Prop} {p : Playback β} {t u : Turn β} {start index : Nat}
  {before trail more : List Pace} {node : Node β} {b : β}

/-- What is known of a run that has left a trail from the node that it started at. -/
structure Tracked (S : Nat → β → Prop) (p : Playback β) (start : Nat) (trail : List Pace)
    (t : Turn β) : Prop where
  notSkipping : t.playback.skipping = false
  notPausing : t.playback.pauseRequested = false
  samePlan : p.SamePlan t.playback
  inherits : t.playback.Inherits S
  inRange : start < p.nodes.length
  remembers : p.Remembers S trail t.playback.nodes

/-- A run that has left a trail, and where it is. -/
structure Live (S : Nat → β → Prop) (p : Playback β) (start : Nat) (trail : List Pace)
    (t : Turn β) : Prop extends Tracked S p start trail t where
  place : ∃ b, t.inFlight = [b] ∧ p.Located start trail b

omit [Behaviour β] in
/-- What a call changes of a node is not what the node remembers. -/
theorem memoAt_modify_of_memo_eq (nodes : List (Node β)) (index : Nat) {f : Node β → Node β}
    (hf : ∀ n, (f n).memo = n.memo) (i : Nat) :
    memoAt (nodes.modify index f) i = memoAt nodes i := by
  rw [memoAt_modify]
  split_ifs
  · simp only [hf]
    rfl
  · rfl

omit [Behaviour β] in
theorem memoAt_rest (t : Turn β) (index i : Nat) :
    memoAt (t.rest index).playback.nodes i = memoAt t.playback.nodes i :=
  memoAt_modify_of_memo_eq t.playback.nodes index (f := fun n => { n with running := false })
    (fun _ => rfl) i

/-- The chosen output is remembered if it is one. -/
theorem memoAt_resolved_of_choice (hs : t.playback.skipping = false)
    (hn : t.playback.nodes[index]? = some node)
    (hnodes : (t.resolved index node).playback.nodes =
      ((t.rest index).chosen index node b).playback.nodes)
    (hpos : 0 ≤ (t.choice index b).output) (i : Nat) :
    memoAt (t.resolved index node).playback.nodes i =
      if index = i then some (t.choice index b).output.toNat else memoAt t.playback.nodes i := by
  have htakes : (!t.playback.skipping && decide (0 ≤ (t.choice index b).output)) = true := by
    rw [hs, decide_eq_true hpos]
    rfl
  rw [hnodes]
  -- The choice leaves a memo where the node is, and no other one changes.
  change memoAt ((t.rest index).playback.nodes.modify index _) i = _
  rw [memoAt_modify]
  by_cases hi : index = i
  · subst hi
    rw [if_pos rfl, if_pos rfl]
    have hn' : ∃ n, (t.rest index).playback.nodes[index]? = some n := by
      refine ⟨{ node with running := false }, ?_⟩
      change (t.playback.nodes.modify index _)[index]? = _
      rw [List.getElem?_modify_eq, hn]
      rfl
    obtain ⟨n, hn'⟩ := hn'
    rw [hn', Option.bind_some]
    exact if_pos htakes
  · rw [if_neg hi, if_neg hi, memoAt_rest]

/-- A node that has been entered is run. -/
theorem Tracked.ran (hS : Heritable S) (h : Tracked S p start trail t)
    (hn : t.playback.nodes[index]? = some node) {b₀ : β} (hb₀ : node.behaviour = some b₀)
    (hb : b = b₀ ∨ b = t.assigned b₀) (running : Bool) :
    Tracked S p start trail (t.ran index running b) := by
  have hran : t.Change (t.ran index running b) := .ran hn hb₀ hb h.notSkipping
  have hmemos := memoAt_modify_of_memo_eq t.playback.nodes index (f := fun n => { n with
    behaviour := some (t.runOutcome index running b).behaviour
    running := (t.runOutcome index running b).running }) fun _ => rfl
  exact ⟨h.notSkipping, h.notPausing, h.samePlan.trans hran.samePlan, hran.inherits hS h.inherits,
    h.inRange, h.remembers.congr (fun _ _ => Iff.rfl) hmemos⟩

theorem Tracked.append (h : Tracked S p start trail t)
    (hmore : ∀ i ending, .left i ending ∉ more) : Tracked S p start (trail ++ more) t :=
  have hleft : ∀ i ending, .left i ending ∈ trail ++ more ↔ .left i ending ∈ trail :=
    fun i ending => ⟨fun hi => (List.mem_append.mp hi).resolve_right (hmore i ending),
      List.mem_append_left _⟩
  { h with remembers := h.remembers.congr hleft fun _ => rfl }

omit [Behaviour β] in
theorem left_not_mem_entered (index i : Nat) (ending : Ending) :
    Pace.left i ending ∉ [Pace.entered index] := by
  simp

/-- A node that wants to be called again has the branch of the run wait at it. -/
theorem live_suspend (h : Tracked S p start (before ++ [.entered index]) t)
    (halone : t.inFlight = []) (hway : p.Way start before index) {endings : List Ending}
    (hplace : p.plan[index]? = some (endings, true)) (wait : Float32) :
    Live S p start (before ++ [.entered index]) (t.suspend index wait) :=
  { h with
    samePlan := ⟨h.samePlan.graph, h.samePlan.settings, h.samePlan.plan⟩
    place := ⟨t.nextPoll index wait, inFlight_defer halone _, .staying rfl hway hplace rfl⟩ }

/-- A node that is done for the first time is left through one ending, and if the run goes on the
node remembers which. -/
theorem live_finish (hS : Heritable S) (hunforked : ∀ i b, S i b → Behaviour.fansOut b = false)
    (h : Tracked S p start (before ++ [.entered index]) t) (hrun : t.playback.phase = .running)
    (halone : t.inFlight = []) (hn : t.playback.nodes[index]? = some node)
    (hb : node.behaviour = some b) (hr : node.isRunnable = true) (hway : p.Way start before index)
    (hnew : .entered index ∉ before) :
    ∃ ending, t.leavings index = [.left index ending] ∧
      ((t.finish index).playback.phase = .running →
        Live S p start (before ++ [.entered index, .left index ending]) (t.finish index)) := by
  have hown : S index b := h.inherits.of_getElem? hn hb
  obtain ⟨ending, hexits, hfinish⟩ := finish_of_single hn h.notPausing fun b' hb' => by
    obtain rfl := Option.some.inj (hb.symm.trans hb')
    exact hunforked _ _ hown
  refine ⟨ending, leavings_of_single h.notPausing hn hexits, fun hgoes => ?_⟩
  have hforward := t.forward_resolved index node
  have hpause := hforward.calm.pauseRequested.trans h.notPausing
  have hchanges : t.Changes (t.finish index) := changes_finish t index hrun
  have hsame := (changes_resolved hrun hn).samePlan
  have halone' := (t.inFlight_resolved index node).trans halone
  rcases depart_cases (hforward.calm.phase.trans hrun) hpause halone' index ending with
    ⟨-, v, -, -, hover⟩ | ⟨c, hstep, htarget, -, honward⟩
  · rw [hfinish, hover] at hgoes
    simp [endRun] at hgoes
  · rw [hsame.target?_eq, h.samePlan.target?_eq] at htarget
    have hplace := Playback.plan_of_getElem? hn
    rw [h.samePlan.plan, hr] at hplace
    -- The run goes on, so the node has chosen one of its outputs.
    have hleads : ending ≠ .stop := fun hstop => by simp [hstop, Playback.target?] at htarget
    have houtputs : Behaviour.outputs b ≠ 0 := fun hnone => by
      rw [exits_of_outputs_eq_zero hb hnone] at hexits
      exact hleads (List.singleton_inj.mp hexits).symm
    have hrecalls : t.recalled? node b = none := by
      rw [recalled?, h.notSkipping, Bool.false_and, if_neg Bool.false_ne_true]
    obtain ⟨hchosen, hnodes⟩ := exits_of_choice hb (hunforked _ _ hown) houtputs hrecalls
    obtain rfl := List.singleton_inj.mp (hexits.symm.trans hchosen)
    obtain ⟨hpos, hending⟩ := getElem?_of_endingAt hleads
    have hchose : p.Chose S index (t.endingAt node (t.choice index b).output).2
        (t.choice index b).output.toNat :=
      ⟨⟨_, hplace, hending⟩, b, _, _, hown, (Int.toNat_of_nonneg hpos).symm⟩
    have hflight : (t.finish index).inFlight = [c] ∧
        (t.finish index).playback.nodes = (t.resolved index node).playback.nodes ∧
        (t.finish index).playback.pauseRequested = false := by
      rw [hfinish, honward]
      split_ifs
      · exact ⟨inFlight_push halone' c, rfl, hpause⟩
      · exact ⟨inFlight_defer halone' c, rfl, hpause⟩
    have hunleft : ∀ ending, .left index ending ∉ before ++ [.entered index] := by
      intro ending' hmem
      rcases List.mem_append.mp hmem with hmem | hmem
      · exact hnew (hway.entered_of_left hmem)
      · exact left_not_mem_entered _ _ _ hmem
    have hleft := h.remembers.leave hunleft hchose
      (memoAt_resolved_of_choice h.notSkipping hn hnodes hpos)
    rw [List.append_assoc] at hleft
    exact
      { notSkipping := hchanges.notSkipping h.notSkipping
        notPausing := hflight.2.2
        samePlan := h.samePlan.trans hchanges.samePlan
        inherits := hchanges.inherits hS h.inherits
        inRange := h.inRange
        remembers := hflight.2.1 ▸ hleft
        place := ⟨c, hflight.1, .arriving hstep (hway.left hplace htarget)⟩ }

/-- A branch of a run that is not the first one to be taken up leaves no other. -/
theorem Live.only (h : Live S p start trail t) {b : Branch} {rest : List Branch}
    (hready : t.ready = b :: rest) :
    ({ t with ready := rest } : Turn β).inFlight = [] ∧ p.Located start trail b := by
  obtain ⟨c, hflight, hlocated⟩ := h.place
  rw [inFlight, hready, List.cons_append, List.cons_eq_cons] at hflight
  obtain ⟨rfl, hnone⟩ := hflight
  exact ⟨hnone, hlocated⟩

/-- The way of a run, up to the node that it has entered and not left yet. -/
theorem Live.exists_way (h : Live S p start trail t) : ∃ path index, p.Way start path index ∧
    p.Remembers S path t.playback.nodes ∧ path <+: trail ∧
    (path = trail ∨ ∃ endings, trail = path ++ [.entered index] ∧
      p.plan[index]? = some (endings, true)) := by
  obtain ⟨b, -, hlocated⟩ := h.place
  cases hlocated with
  | arriving _ hway => exact ⟨trail, _, hway, h.remembers, List.prefix_refl _, Or.inl rfl⟩
  | @staying path endings _ hway hn htrail =>
    subst htrail
    have hleft : ∀ i ending, Pace.left i ending ∈ path ↔
        .left i ending ∈ path ++ [.entered b.index] := by simp
    exact ⟨path, _, hway, h.remembers.congr hleft fun _ => rfl, List.prefix_append _ _,
      Or.inr ⟨endings, rfl, hn⟩⟩

omit [Behaviour β] in
/-- What is entered once has not been entered before. -/
theorem entered_not_mem
    (h : ((before ++ Pace.entered index :: more).filterMap Pace.entered?).Nodup) :
    Pace.entered index ∉ before := by
  rw [List.filterMap_append, List.filterMap_cons_some (f := Pace.entered?) rfl] at h
  intro hmem
  have hindex : index ∈ before.filterMap Pace.entered? := List.mem_filterMap.mpr ⟨_, hmem, rfl⟩
  exact (List.nodup_append.mp h).2.2 index hindex index List.mem_cons_self rfl

/-- The run comes to a place. -/
theorem Tracked.arrive (hS : Heritable S) (hunforked : ∀ i b, S i b → Behaviour.fansOut b = false)
    (h : Tracked S p start trail t) (hrun : t.playback.phase = .running) (halone : t.inFlight = [])
    {c : Branch} (hc : c.step = .visit) (hway : p.Way start trail c.index)
    (honce : ((trail ++ t.paces c).filterMap Pace.entered?).Nodup)
    (hgoes : (t.advance c).playback.phase = .running) :
    Live S p start (trail ++ t.paces c) (t.advance c) := by
  have hhop := hop_of_not_skipping h.notSkipping
  have hhop₁ : t.hop.1 = t := congrArg Prod.fst hhop
  have hhop₂ : t.hop.2 = true := congrArg Prod.snd hhop
  have hadvance : t.advance c = t.visit c.index := by rw [advance, hc]
  rw [hadvance] at hgoes ⊢
  cases hn : t.playback.nodes[c.index]? with
  -- Behind the last node the run would be over.
  | none =>
    rw [visit_of_none hhop₂ (hhop₁.symm ▸ hn), hhop₁, settle_of_alone hrun h.notPausing halone]
      at hgoes
    simp [endRun] at hgoes
  | some node =>
    have hplace := Playback.plan_of_getElem? hn
    rw [h.samePlan.plan] at hplace
    have hn₁ : t.hop.1.playback.nodes[c.index]? = some node := hhop₁.symm ▸ hn
    cases hr : node.isRunnable with
    | false =>
      -- The node is passed over, and the branch goes on to the next one.
      rw [hr] at hplace
      rw [visit_of_not_runnable hhop₂ hn₁ (isRunnable_eq_false hr), hhop₁,
        paces_of_not_runnable hc hhop₂ hn₁ hr]
      have hunleft : ∀ i ending, Pace.left i ending ∉ [Pace.passed c.index] := by simp
      have htracked := h.append hunleft
      exact { htracked with
        place := ⟨_, inFlight_push halone _, .arriving rfl (hway.passed hplace)⟩ }
    | true =>
      rw [hr] at hplace
      obtain ⟨he, hsome⟩ := Bool.and_eq_true_iff.mp hr
      obtain ⟨b₀, hb₀⟩ := Option.isSome_iff_exists.mp hsome
      let v : Turn β := t.ran c.index false (t.assigned b₀)
      have hpaces := paces_of_runnable hc hhop₂ hn₁ he hb₀
      rw [hhop₁, h.notSkipping, if_neg Bool.false_ne_true] at hpaces
      have hvisit := visit_of_runnable hhop₂ hn₁ he hb₀
      rw [hhop₁, enter_of_playing h.notSkipping] at hvisit
      dsimp only at hpaces hvisit
      have hran : Tracked S p start (trail ++ [.entered c.index]) v :=
        (h.ran hS hn hb₀ (Or.inr rfl) false).append (left_not_mem_entered c.index)
      by_cases hwaits : ((t.runOutcome c.index false (t.assigned b₀)).running &&
          (t.runOutcome c.index false (t.assigned b₀)).wait != 0) = true
      · -- The node wants to be called again, so the branch stays there.
        rw [if_pos hwaits] at hpaces hvisit
        rw [hpaces, hvisit]
        exact live_suspend hran halone hway hplace _
      · -- The node is done and is left at once.
        rw [if_neg hwaits] at hpaces hvisit
        rw [hpaces] at honce
        obtain ⟨n, hn', hb', hendings, -, henabled⟩ := exists_node_called hn .run (t.assigned b₀)
          (t.runOutcome c.index false (t.assigned b₀))
          (t.runOutcome c.index false (t.assigned b₀)).running
        have hr' : n.isRunnable = true := by simp [Node.isRunnable, henabled, he, hb']
        obtain ⟨ending, hleavings, hlive⟩ := live_finish hS hunforked hran hrun halone hn' hb' hr'
          hway (entered_not_mem honce)
        rw [hvisit] at hgoes
        rw [hpaces, hvisit, show (t.ran c.index false (t.assigned b₀)).leavings c.index = _ from
          hleavings]
        exact hlive hgoes

/-- The run goes on with a node. -/
theorem Tracked.stay (hS : Heritable S) (hunforked : ∀ i b, S i b → Behaviour.fansOut b = false)
    {c : Branch} (h : Tracked S p start (before ++ [.entered c.index]) t)
    (hrun : t.playback.phase = .running) (halone : t.inFlight = []) (hc : c.step = .poll)
    (hway : p.Way start before c.index) {endings : List Ending}
    (hplace : p.plan[c.index]? = some (endings, true))
    (honce : ((before ++ [Pace.entered c.index]).filterMap Pace.entered?).Nodup)
    (hgoes : (t.advance c).playback.phase = .running) :
    Live S p start (before ++ [.entered c.index] ++ t.paces c) (t.advance c) := by
  -- The node was entered before, so it is there and can run.
  have hplace' := hplace
  rw [← h.samePlan.plan] at hplace'
  obtain ⟨node, hn, -, hr⟩ := Playback.exists_node_of_plan hplace'
  obtain ⟨he, hsome⟩ := Bool.and_eq_true_iff.mp hr
  obtain ⟨b₀, hb₀⟩ := Option.isSome_iff_exists.mp hsome
  let v : Turn β := t.ran c.index node.running b₀
  have hran : Tracked S p start (before ++ [.entered c.index]) v :=
    h.ran hS hn hb₀ (Or.inl rfl) node.running
  have hadvance : t.advance c =
      if (t.runOutcome c.index node.running b₀).running then
        v.suspend c.index (t.runOutcome c.index node.running b₀).wait
      else v.finish c.index := by
    rw [advance, hc]
    exact poll_of_some hn hb₀
  have hpaces := paces_of_poll hc hn hb₀
  rw [hadvance] at hgoes ⊢
  rw [hpaces]
  by_cases hwaits : (t.runOutcome c.index node.running b₀).running = true
  · -- It goes on waiting.
    rw [if_pos hwaits, if_pos hwaits, List.append_nil]
    exact live_suspend hran halone hway hplace _
  · -- It has finished waiting and is left.
    rw [if_neg hwaits] at hgoes
    rw [if_neg hwaits, if_neg hwaits]
    obtain ⟨n, hn', hb', hendings, -, henabled⟩ := exists_node_called hn
      (if node.running then .poll else .run) b₀ (t.runOutcome c.index node.running b₀)
      (t.runOutcome c.index node.running b₀).running
    have hr' : n.isRunnable = true := by simp [Node.isRunnable, henabled, he, hb']
    obtain ⟨ending, hleavings, hlive⟩ := live_finish hS hunforked hran hrun halone hn' hb' hr' hway
      (entered_not_mem honce)
    rw [show (t.ran c.index node.running b₀).leavings c.index = _ from hleavings, List.append_assoc]
    exact hlive hgoes

/-- The next branch of a run that has not ended lengthens its trail. -/
theorem Live.advance (hS : Heritable S) (hunforked : ∀ i b, S i b → Behaviour.fansOut b = false)
    (h : Live S p start trail t) (hrun : t.playback.phase = .running) {c : Branch}
    {rest : List Branch} (hready : t.ready = c :: rest)
    (honce : ((trail ++ ({ t with ready := rest } : Turn β).paces c).filterMap
      Pace.entered?).Nodup)
    (hgoes : (({ t with ready := rest } : Turn β).advance c).playback.phase = .running) :
    Live S p start (trail ++ ({ t with ready := rest } : Turn β).paces c)
      (({ t with ready := rest } : Turn β).advance c) := by
  obtain ⟨halone, hlocated⟩ := h.only hready
  have htracked : Tracked S p start trail ({ t with ready := rest } : Turn β) :=
    ⟨h.notSkipping, h.notPausing, h.samePlan, h.inherits, h.inRange, h.remembers⟩
  cases hlocated with
  | arriving hc hway => exact htracked.arrive hS hunforked hrun halone hc hway honce hgoes
  | staying hc hway hplace htrail =>
    subst htrail
    rw [List.filterMap_append] at honce
    exact htracked.stay hS hunforked hrun halone hc hway hplace (List.nodup_append.mp honce).1 hgoes

/-- And so do all branches of a turn. -/
theorem live_of_treads (hS : Heritable S) (hunforked : ∀ i b, S i b → Behaviour.fansOut b = false)
    (h : t.playback.phase = .running → Live S p start trail t) (hu : t.Treads more u)
    (honce : ((trail ++ more).filterMap Pace.entered?).Nodup)
    (hrun : u.playback.phase = .running) : Live S p start (trail ++ more) u := by
  induction hu with
  | refl =>
    rw [List.append_nil]
    exact h hrun
  | @next more u c rest hu hp hr ih =>
    rw [← List.append_assoc] at honce ⊢
    have hbefore := honce
    rw [List.filterMap_append] at hbefore
    exact (ih (List.nodup_append.mp hbefore).1 hp).advance hS hunforked hp hr honce hrun

end Turn

namespace Playback

open Turn

variable [Behaviour β] {S : Nat → β → Prop} {p q : Playback β} {start : Nat} {trail : List Pace}

/-- A run begins with no trail. -/
theorem live_playBeginning (hin : p.Inherits S) (w : World β) (start : Nat) (queue : Bool)
    (hrun : (p.playBeginning w start queue).playback.phase = .running) :
    Live S p start [] (p.playBeginning w start queue) := by
  have hsame : p.SamePlan (p.playBeginning w start queue).playback :=
    p.samePlan_beginning w (.play start queue)
  have hinherits : (p.playBeginning w start queue).playback.Inherits S :=
    hin.beginning w (.play start queue)
  unfold playBeginning at hrun hsame hinherits ⊢
  dsimp only at hrun hsame hinherits ⊢
  split_ifs at hrun hsame hinherits ⊢ with hrange hdelay
  · -- There is no such node, and nothing runs.
    simp [Turn.still, kill] at hrun
  all_goals
    have hrange' : start < p.nodes.length := by
      rw [← stopped_nodes_length p w]
      omega
    have hnothing : p.Remembers S [] ((p.stopped w).1.restarted start).nodes :=
      ⟨fun _ _ hmem => absurd hmem List.not_mem_nil,
        fun i _ => (p.stopped w).1.remembersNothing_restarted start i⟩
  · -- The branch waits for the delay to pass, but it is the only one and leads to the start.
    have hstart : start = 0 := by simpa using (Bool.and_eq_true_iff.mp hdelay).2
    subst hstart
    exact ⟨⟨rfl, rfl, hsame, hinherits, hrange', hnothing⟩, _, rfl, .arriving rfl .here⟩
  · exact ⟨⟨rfl, rfl, hsame, hinherits, hrange', hnothing⟩, _, rfl, .arriving rfl .here⟩

/-- Between its turns a run stays where it is. -/
theorem live_updateBeginning {w : World β} (h : Live S p start trail (.still (q, w)))
    (hrun : (q.updateBeginning w).playback.phase = .running) :
    Live S p start trail (q.updateBeginning w) := by
  obtain ⟨b, hflight, hlocated⟩ := h.place
  have hpending : q.pending = [b] := hflight
  -- There is only the one branch, whether it is due or not.
  have hperm := q.perm_due_append_waiting w
  rw [hpending, List.perm_singleton] at hperm
  have hkeeps : ∀ (t : Turn β), t.playback.skipping = q.skipping →
      t.playback.pauseRequested = q.pauseRequested → q.SamePlan t.playback →
      t.playback.nodes = q.nodes → t.inFlight = [b] → Live S p start trail t := by
    intro t hskip hpause hsame hnodes hsingle
    refine ⟨⟨hskip.trans h.notSkipping, hpause.trans h.notPausing, h.samePlan.trans hsame,
      Inherits.congr (p := q) h.inherits ?_, h.inRange, ?_⟩, b, hsingle, hlocated⟩
    · rw [behaviours, behaviours, hnodes]
    · rw [hnodes]
      exact h.remembers
  have hwaiting : q.SamePlan (q.waiting w) := ⟨rfl, rfl, rfl⟩
  unfold updateBeginning at hrun ⊢
  split_ifs at hrun ⊢ with hidle hlive hdue hloading hkilled
  · exact h
  · simp [Turn.still] at hrun
  · -- Nothing is due.
    rw [hdue, List.nil_append] at hperm
    exact hkeeps _ rfl rfl hwaiting rfl hperm
  · simp [Turn.still, kill] at hrun
  · -- The branch is due and put off, behind no other.
    have hpostponed : (q.waiting w).pending ++ q.due w = [b] :=
      List.perm_singleton.mp (List.perm_append_comm.trans (List.Perm.of_eq hperm))
    exact hkeeps _ rfl rfl ⟨rfl, rfl, rfl⟩ rfl hpostponed
  · exact hkeeps _ rfl rfl hwaiting rfl hperm

/-- A run that has not ended is live at every point. -/
theorem Played.live (hS : Heritable S) (hunforked : ∀ i b, S i b → Behaviour.fansOut b = false)
    (hin : p.Inherits S) {w : World β} {queue : Bool} {s : Playback β × World β}
    (h : p.Played w start queue trail s) (honce : (trail.filterMap Pace.entered?).Nodup)
    (hrun : s.1.phase = .running) : Live S p start trail (.still s) := by
  have hrest : ∀ {t u : Turn β} {before more : List Pace},
      (t.playback.phase = .running → Live S p start before t) → t.Treads more u →
      ((before ++ more).filterMap Pace.entered?).Nodup → u.playback.phase = .running →
      (u.ready = [] ∨ u.playback.phase ≠ .running) →
      Live S p start (before ++ more) (.still u.view) := by
    intro t u before more hlive hu honce hrun hover
    have hready : u.ready = [] := hover.resolve_right (not_not_intro hrun)
    have hstill : Turn.still u.view = u := by
      rw [Turn.still, view, ← hready]
    rw [hstill]
    exact live_of_treads hS hunforked hlive hu honce hrun
  induction h with
  | played hu hover => exact hrest (live_playBeginning hin w start queue) hu honce hrun hover
  | @updated trail more q w' u h hu hover ih =>
    have hbefore := honce
    rw [List.filterMap_append] at hbefore
    refine hrest (t := q.beginning w' .update) (fun hbegins => ?_) hu honce hrun hover
    refine live_updateBeginning (ih (List.nodup_append.mp hbefore).1 ?_) hbegins
    -- An update does not let a playback run that has ended.
    by_contra hended
    have hstill : q.updateBeginning w' = .still (q, w') := if_pos (Or.inl hended)
    have hphase : (q.updateBeginning w').playback.phase = .running := hbegins
    rw [hstill] at hphase
    exact hended hphase
  | elsewhere _ w'' ih =>
    have hlive := ih honce hrun
    exact ⟨⟨hlive.notSkipping, hlive.notPausing, hlive.samePlan, hlive.inherits, hlive.inRange,
      hlive.remembers⟩, hlive.place⟩

end Playback

end Cutscene
