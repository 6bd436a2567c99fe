import Cutscene.Behaviour.Builtin
import Cutscene.Proofs.Playback.Striding
import Cutscene.Proofs.Playback.Trail

/-!
# Skips go the way of the run before

A skip of a run that has not ended starts where the run did, and as long as its nodes remember
outputs it takes those. So it goes the same way (`Turn.Retracing`): a node with several outputs
takes the one that it took in the run, and is not asked; a node with one output is asked, which
makes no difference if it always gives the same answer. Behind the end of the trail nothing is
remembered any more, and every node is asked (`AsksEvery`). `Playback.skip_replays` puts the two
together.
-/

namespace Cutscene

variable {β : Type} [Behaviour β]

/-- A node that has several outputs, whatever becomes of it. -/
def Branching (S : Nat → β → Prop) (index : Nat) : Prop := ∀ b, S index b → 1 < Behaviour.outputs b

/-- A node that has one output and always gives the same answer when it is asked. -/
structure Unvarying (S : Nat → β → Prop) (index : Nat) : Prop where
  outputs : ∀ b, S index b → Behaviour.outputs b = 1
  answer : ∃ output, ∀ b ctx vars, S index b → (Behaviour.choose ctx vars b).output = output

/-- Every node that is skipped is asked right afterwards, unless it has no outputs. -/
inductive AsksEvery : List (Call β) → Prop
  | nil : AsksEvery []
  | skipped {rest : List (Call β)} (t : Turn β) (index : Nat) (b : β) (h : AsksEvery rest) :
    AsksEvery (t.call .skip index b ::
      (((t.call .skip index b).question? (t.skipOutcome index b)).toList ++ rest))

theorem AsksEvery.append {calls calls' : List (Call β)} (h : AsksEvery calls)
    (h' : AsksEvery calls') : AsksEvery (calls ++ calls') := by
  induction h with
  | nil => exact h'
  | skipped t index b _ ih =>
    rw [List.cons_append, List.append_assoc]
    exact .skipped t index b ih

namespace Turn

variable {S : Nat → β → Prop} {p : Playback β} {t u v : Turn β} {start index : Nat}
  {trail more : List Pace} {node : Node β} {b : β}

theorem Treads.trans (h : t.Treads trail u) (h' : u.Treads more v) :
    t.Treads (trail ++ more) v := by
  induction h' with
  | refl =>
    rw [List.append_nil]
    exact h
  | next _ hp hr ih =>
    rw [← List.append_assoc]
    exact ih.next hp hr

theorem index_of_mem_asked {c : Call β} (h : c ∈ t.asked index) : c.index = index := by
  unfold asked at h
  split_ifs at h with hp
  · exact absurd h List.not_mem_nil
  · rw [Option.mem_toList, Option.bind_eq_some_iff] at h
    obtain ⟨node, -, hq⟩ := h
    unfold question? at hq
    split at hq
    · simp at hq
    · split_ifs at hq
      split at hq
      · simp at hq
      · rw [← Option.some.inj hq]
        rfl

/-! ### Nodes that take the same ending again -/

/-- What a skip does with a node that has been skipped and took an ending before. -/
structure TakesAgain (S : Nat → β → Prop) (t : Turn β) (index : Nat) (node : Node β)
    (ending : Ending) : Prop where
  exits : t.exits index node = [ending]
  others : ∀ i, i ≠ index → memoAt (t.resolved index node).playback.nodes i =
    memoAt t.playback.nodes i
  forgets : memoAt (t.resolved index node).playback.nodes index = none ∨ Unvarying S index
  asked : t.asked index = [] ∨ Unvarying S index

/-- A node with several outputs takes the output that it remembers and forgets it. -/
theorem takesAgain_of_branching (hkind : Branching S index)
    (hfan : Behaviour.fansOut b = false) (hs : t.playback.skipping = true)
    (hpause : t.playback.pauseRequested = false) (hn : t.playback.nodes[index]? = some node)
    (hb : node.behaviour = some b) (hown : S index b) {output : Nat} {ending : Ending}
    (hmemo : node.memo = some output) (hending : node.endings[output]? = some ending) :
    TakesAgain S t index node ending := by
  have houtputs := hkind b hown
  have hrecalls : t.recalled? node b = some output := by
    rw [recalled?, hs, Bool.true_and, if_pos (decide_eq_true houtputs), hmemo]
  obtain ⟨hexits, hnodes⟩ := exits_of_recalled hb hfan (Nat.ne_of_gt (Nat.lt_of_succ_lt houtputs))
    hrecalls
  -- To use the memo up changes no other one.
  have hmemos : ∀ i, memoAt (t.resolved index node).playback.nodes i =
      if index = i then (t.rest index).playback.nodes[i]?.bind fun _ => none
      else memoAt (t.rest index).playback.nodes i := by
    intro i
    rw [hnodes]
    exact memoAt_modify (t.rest index).playback.nodes index (fun n => { n with memo := none }) i
  refine ⟨?_, fun i hi => ?_, Or.inl ?_, Or.inl ?_⟩
  · rw [hexits, endingAt_of_getElem? t (Int.natCast_nonneg output) hending]
  · rw [hmemos, if_neg (Ne.symm hi), memoAt_rest]
  · rw [hmemos, if_pos rfl]
    cases (t.rest index).playback.nodes[index]? <;> rfl
  · -- What has a memo of its choice is not asked.
    unfold asked
    rw [hpause, if_neg Bool.false_ne_true, hn, Option.bind_some]
    unfold question?
    rw [hb]
    dsimp only
    rw [hfan, Bool.false_and, if_neg Bool.false_ne_true, hrecalls]
    split_ifs <;> rfl

/-- A node with one output is asked again and gives the same answer. -/
theorem takesAgain_of_unvarying (hkind : Unvarying S index) (hfan : Behaviour.fansOut b = false)
    (hb : node.behaviour = some b) (hown : S index b) {output : Nat} {ending : Ending}
    (hchose : ∃ b ctx vars, S index b ∧ (Behaviour.choose ctx vars b).output = output)
    (hending : node.endings[output]? = some ending) : TakesAgain S t index node ending := by
  have houtputs := hkind.outputs b hown
  have hrecalls : t.recalled? node b = none := by
    rw [recalled?, houtputs, if_neg (by simp)]
  obtain ⟨hexits, hnodes⟩ := exits_of_choice hb hfan (by omega) hrecalls
  have hanswer : (t.choice index b).output = output := by
    obtain ⟨answer, hanswer⟩ := hkind.answer
    obtain ⟨b', ctx, vars, hb', hchoice⟩ := hchose
    exact (hanswer b _ _ hown).trans ((hanswer b' ctx vars hb').symm.trans hchoice)
  refine ⟨?_, fun i hi => ?_, Or.inr hkind, Or.inr hkind⟩
  · rw [hexits, hanswer, endingAt_of_getElem? t (Int.natCast_nonneg output) hending]
  · rw [hnodes]
    change memoAt ((t.rest index).playback.nodes.modify index _) i = _
    rw [memoAt_modify, if_neg (Ne.symm hi), memoAt_rest]

/-! ### The way back over a trail -/

/-- A skip that has gone some of the way of a run, and comes to a place. It has skipped the nodes on
the way, asked none that has several outputs, and forgotten what it has taken. -/
structure Retracing (S : Nat → β → Prop) (p : Playback β) (origin : Turn β) (trail : List Pace)
    (t : Turn β) (index : Nat) : Prop where
  treads : origin.Treads trail t
  striding : Striding S p t index
  calm : origin.Calm t
  unread : ∀ i, (∀ ending, .left i ending ∉ trail) →
    memoAt t.playback.nodes i = memoAt origin.playback.nodes i
  read : ∀ i ending, .left i ending ∈ trail → memoAt t.playback.nodes i = none ∨ Unvarying S i
  calls : ∃ calls, t.world.calls = origin.world.calls ++ calls ∧
    (calls.filter (·.form = .skip)).map (·.index) = trail.filterMap Pace.entered? ∧
    ∀ c ∈ calls, c.form = .skip ∨ c.form = .choose ∧ Unvarying S c.index

variable {origin : Turn β} {r : Playback β × World β}

/-- A place that a skip comes to which is not killed is within the limit on hops. -/
theorem Striding.within (hS : Heritable S) (hunforked : ∀ i b, S i b → Behaviour.fansOut b = false)
    (h : Striding S p t index) {fuel : Nat} (hr : t.run fuel = some r)
    (hforced : r.2.eventsOf t.playback.id ≠ t.world.eventsOf t.playback.id ++ [.ended true]) :
    t.playback.hops < t.hopCap ∧
      ∃ fuel, (({ t with ready := [] } : Turn β).visit index).run fuel = some r := by
  cases fuel with
  | zero =>
    rw [h.run_zero] at hr
    simp at hr
  | succ fuel =>
    rw [h.run_succ] at hr
    refine ⟨?_, fuel, hr⟩
    cases h.next hS hunforked with
    | killed _ hfinished hevents =>
      rw [run_of_not_running (by simp [hfinished.1])] at hr
      obtain rfl := Option.some.inj hr
      exact absurd hevents hforced
    | ended hhops | onward hhops => exact hhops

/-- A skip that makes a branch ready is on its way to the next place. -/
theorem Striding.onto (hS : Heritable S) (hunforked : ∀ i b, S i b → Behaviour.fansOut b = false)
    (h : Striding S p t index) (hhops : t.playback.hops < t.hopCap) {c : Branch}
    (hvisit : ({ t with ready := [] } : Turn β).visit index = v.push c)
    (hrun : v.playback.phase = .running) :
    Striding S p (v.push c) c.index ∧ t.Calm (v.push c) := by
  have hnext := h.next hS hunforked
  rw [hvisit] at hnext
  cases hnext with
  | killed hbeyond => omega
  | ended _ _ hu =>
    have hover : (v.push c).playback.phase = .finished := by
      rw [hu]
      rfl
    have hgoes : (v.push c).playback.phase = .running := hrun
    simp [hover] at hgoes
  | onward _ hforward _ hon =>
    obtain ⟨b, hready, -, hindex⟩ := hon.ready
    have hlast : v.ready ++ [c] = [] ++ [b] := hready
    have hsame : c = b := (List.append_inj' hlast rfl).2 |> List.singleton_inj.mp
    rw [hsame, hindex, ← hsame]
    exact ⟨hon, hforward.calm⟩

/-- The next place of the trail is one that is passed over. -/
theorem Retracing.pass (hS : Heritable S) (hunforked : ∀ i b, S i b → Behaviour.fansOut b = false)
    (h : Retracing S p origin trail t index) (hhops : t.playback.hops < t.hopCap)
    {endings : List Ending} (hplace : p.plan[index]? = some (endings, false)) :
    Retracing S p origin (trail ++ [.passed index]) (({ t with ready := [] } : Turn β).visit index)
      (index + 1) := by
  obtain ⟨b, hready, hstep, rfl⟩ := h.striding.ready
  let u : Turn β := { t with ready := [] }
  have hhop : u.hop = (u.hopped, true) := hop_within h.striding.skipping hhops
  have hhop₁ : u.hop.1 = u.hopped := congrArg Prod.fst hhop
  have hhop₂ : u.hop.2 = true := congrArg Prod.snd hhop
  rw [← h.striding.samePlan.plan] at hplace
  obtain ⟨node, hn, -, hr⟩ := Playback.exists_node_of_plan hplace
  -- The limit has not been reached, so the hop only counts.
  have hn' : u.hop.1.playback.nodes[b.index]? = some node := by rw [hhop₁]; exact hn
  have hvisit : u.visit b.index =
      u.hopped.push { index := b.index + 1, step := .visit, origin := some b.index } := by
    rw [visit_of_not_runnable hhop₂ hn' (isRunnable_eq_false hr), hhop₁]
  have htreads := h.treads.next h.striding.running hready
  rw [advance, hstep] at htreads
  change origin.Treads (trail ++ u.paces b) (u.visit b.index) at htreads
  rw [paces_of_not_runnable hstep hhop₂ hn' hr] at htreads
  obtain ⟨hon, hcalm⟩ := h.striding.onto hS hunforked hhops hvisit h.striding.running
  change Retracing S p origin (trail ++ [.passed b.index]) (u.visit b.index) (b.index + 1)
  rw [hvisit] at htreads ⊢
  obtain ⟨calls, hcalls, hskips, hforms⟩ := h.calls
  refine ⟨htreads, hon, h.calm.trans hcalm, fun i hi => ?_, fun i ending hi => ?_, calls, hcalls,
    ?_, hforms⟩
  · exact h.unread i fun ending hmem => hi ending (List.mem_append_left _ hmem)
  · exact h.read i ending ((List.mem_append.mp hi).resolve_right (by simp))
  · rw [hskips, List.filterMap_append]
    exact (List.append_nil _).symm

/-- What the next node of the trail took stays known: the skip takes it as well. -/
theorem takesAgain_of_chose (hkind : Branching S index ∨ Unvarying S index)
    (hfan : Behaviour.fansOut b = false) (hs : t.playback.skipping = true)
    (hpause : t.playback.pauseRequested = false) (hn : t.playback.nodes[index]? = some node)
    (hb : node.behaviour = some b) (hown : S index b) {output : Nat} {ending : Ending}
    (hmemo : memoAt t.playback.nodes index = some output)
    (hplace : p.plan[index]? = some (node.endings, true))
    (hchose : p.Chose S index ending output) : TakesAgain S t index node ending := by
  obtain ⟨⟨endings, hplan, hending⟩, hchoice⟩ := hchose
  obtain rfl : node.endings = endings :=
    (Prod.mk.inj (Option.some.inj (hplace.symm.trans hplan))).1
  rcases hkind with hkind | hkind
  · rw [memoAt, hn, Option.bind_some] at hmemo
    exact takesAgain_of_branching hkind hfan hs hpause hn hb hown hmemo hending
  · exact takesAgain_of_unvarying hkind hfan hb hown hchoice hending

/-- A turn in which a node that a skip has come to has been skipped, right before it is left. -/
structure Skips (S : Nat → β → Prop) (p : Playback β) (t : Turn β) (index : Nat) (u : Turn β)
    (n : Node β) (b : β) : Prop where
  visit : ({ t with ready := [] } : Turn β).visit index = u.finish index
  paces : ∀ c : Branch, c.step = .visit → c.index = index →
    ({ t with ready := [] } : Turn β).paces c = .entered index :: u.leavings index
  running : u.playback.phase = .running
  skipping : u.playback.skipping = true
  notPausing : u.playback.pauseRequested = false
  samePlan : p.SamePlan u.playback
  node : u.playback.nodes[index]? = some n
  behaviour : n.behaviour = some b
  own : S index b
  place : p.plan[index]? = some (n.endings, true)
  memos : ∀ i, memoAt u.playback.nodes i = memoAt t.playback.nodes i
  calls : ∃ c : Call β, c.form = .skip ∧ c.index = index ∧ u.world.calls = t.world.calls ++ [c]

theorem exists_skips (hS : Heritable S) (h : Striding S p t index)
    (hhops : t.playback.hops < t.hopCap) {endings : List Ending}
    (hplace : p.plan[index]? = some (endings, true)) : ∃ u n b, Skips S p t index u n b := by
  let u : Turn β := { t with ready := [] }
  let v : Turn β := u.hopped
  have hhop : u.hop = (v, true) := hop_within h.skipping hhops
  have hhop₁ : u.hop.1 = v := congrArg Prod.fst hhop
  have hhop₂ : u.hop.2 = true := congrArg Prod.snd hhop
  -- The node can run as it could when the run came by.
  have hplace' := hplace
  rw [← h.samePlan.plan] at hplace'
  obtain ⟨node, hn, rfl, hr⟩ := Playback.exists_node_of_plan hplace'
  obtain ⟨he, hsome⟩ := Bool.and_eq_true_iff.mp hr
  obtain ⟨b, hb⟩ := Option.isSome_iff_exists.mp hsome
  have hskip : v.playback.skipping = true := h.skipping
  have hn' : u.hop.1.playback.nodes[index]? = some node := by rw [hhop₁]; exact hn
  have hskipped : v.Change (v.called .skip index (v.assigned b)
      (v.skipOutcome index (v.assigned b)) false) := .skipped hn hb hskip
  have hsame : p.SamePlan v.playback := ⟨h.samePlan.graph, h.samePlan.settings, h.samePlan.plan⟩
  obtain ⟨n, hnode, hbehaviour, hendings, -, -⟩ := exists_node_called (t := v) hn .skip
    (v.assigned b) (v.skipOutcome index (v.assigned b)) false
  refine ⟨v.called .skip index (v.assigned b) (v.skipOutcome index (v.assigned b)) false, n,
    (v.skipOutcome index (v.assigned b)).behaviour,
    { visit := ?_
      paces := fun c hstep hindex => ?_
      running := h.running
      skipping := hskip
      notPausing := h.notPausing
      samePlan := hsame.trans hskipped.samePlan
      node := hnode
      behaviour := hbehaviour
      own := hS.skip (inherits_assigned hS (h.inherits.of_getElem? hn hb)) _ _
      place := hendings.symm ▸ hplace
      memos := memoAt_modify_of_memo_eq v.playback.nodes index (f := fun n => { n with
        behaviour := some (v.skipOutcome index (v.assigned b)).behaviour
        running := false }) fun _ => rfl
      calls := ⟨v.call .skip index (v.assigned b), rfl, rfl, v.calls_called _ _ _ _ _⟩ }⟩
  · change u.visit index = _
    rw [visit_of_runnable hhop₂ hn' he hb, hhop₁, enter_of_skipping hskip]
  · subst hindex
    change u.paces c = _
    rw [paces_of_runnable hstep hhop₂ hn' he hb, hhop₁]
    dsimp only
    rw [if_pos hskip]

/-- The next place of the trail is a node that is skipped and takes the ending that it took. -/
theorem Retracing.leave (hS : Heritable S) (hunforked : ∀ i b, S i b → Behaviour.fansOut b = false)
    (h : Retracing S p origin trail t index) (hhops : t.playback.hops < t.hopCap)
    {endings : List Ending} (hplace : p.plan[index]? = some (endings, true)) {ending : Ending}
    {target output : Nat} (htarget : p.target? index ending = some target)
    (hkind : Branching S index ∨ Unvarying S index) (hnew : ∀ ending, .left index ending ∉ trail)
    (hmemo : memoAt origin.playback.nodes index = some output)
    (hchose : p.Chose S index ending output) :
    Retracing S p origin (trail ++ [.entered index, .left index ending])
      (({ t with ready := [] } : Turn β).visit index) target := by
  obtain ⟨u, node, b, hskips⟩ := exists_skips hS h.striding hhops hplace
  have hagain : TakesAgain S u index node ending :=
    takesAgain_of_chose hkind (hunforked _ _ hskips.own) hskips.skipping hskips.notPausing
      hskips.node hskips.behaviour hskips.own
      ((hskips.memos index).trans ((h.unread _ hnew).trans hmemo)) hskips.place hchose
  rw [← hskips.samePlan.target?_eq] at htarget
  obtain ⟨c, hfinish, -, rfl⟩ := finish_of_leads hskips.running hskips.notPausing hskips.node
    hagain.exits htarget (Or.inl hskips.skipping)
  have hvisit := hskips.visit.trans hfinish
  -- The paces of the trail are gone again.
  obtain ⟨b', hready, hstep, hindex⟩ := h.striding.ready
  have htreads := h.treads.next h.striding.running hready
  rw [advance, hstep, hindex, hskips.paces b' hstep hindex,
    leavings_of_single hskips.notPausing hskips.node hagain.exits] at htreads
  obtain ⟨hon, hcalm⟩ := h.striding.onto hS hunforked hhops hvisit
    ((u.forward_resolved index node).calm.phase.trans hskips.running)
  -- Besides being skipped the node is asked at most once.
  obtain ⟨calls, hcalls, hentered, hforms⟩ := h.calls
  obtain ⟨call, hform, hplaced, hcall⟩ := hskips.calls
  have hasked : (u.finish index).world.calls =
      origin.world.calls ++ (calls ++ call :: u.asked index) := by
    rw [u.calls_finish, hcall, hcalls]
    simp only [List.append_assoc, List.singleton_append]
  have hquestions : (u.asked index).filter (·.form = .skip) = [] := by
    rw [List.filter_eq_nil_iff]
    intro c hc
    rw [u.form_of_mem_asked hc]
    simp
  rw [← hskips.visit] at hasked
  refine ⟨htreads, hvisit ▸ hon, h.calm.trans (hvisit ▸ hcalm), fun i hi => ?_,
    fun i ending' hi => ?_, _, hasked, ?_, fun c hc => ?_⟩
  · have hne : i ≠ index := fun heq => hi ending (by simp [heq])
    rw [hvisit]
    exact (hagain.others i hne).trans ((hskips.memos i).trans
      (h.unread i fun ending hmem => hi ending (List.mem_append_left _ hmem)))
  · rw [hvisit]
    by_cases hne : i = index
    · exact hne ▸ hagain.forgets
    · have hbefore : .left i ending' ∈ trail := by simpa [hne] using hi
      exact (h.read i ending' hbefore).imp_left fun hnone =>
        (hagain.others i hne).trans ((hskips.memos i).trans hnone)
  · rw [List.filter_append, List.map_append, hentered, List.filterMap_append,
      List.filter_cons_of_pos (by simp [hform]), hquestions, List.map_cons, hplaced]
    rfl
  · rcases List.mem_append.mp hc with hc | hc
    · exact hforms c hc
    · rcases List.mem_cons.mp hc with rfl | hc
      · exact Or.inl hform
      · rcases hagain.asked with hnone | hunvarying
        · rw [hnone] at hc
          exact absurd hc List.not_mem_nil
        · exact Or.inr ⟨u.form_of_mem_asked hc, (index_of_mem_asked hc).symm ▸ hunvarying⟩

/-- A skip that is not killed is within the limit at every place of the trail. -/
theorem Retracing.within (hS : Heritable S) (hunforked : ∀ i b, S i b → Behaviour.fansOut b = false)
    (h : Retracing S p origin trail t index) {fuel : Nat} (hr : t.run fuel = some r)
    (hforced : r.2.eventsOf origin.playback.id ≠
      origin.world.eventsOf origin.playback.id ++ [.ended true]) :
    t.playback.hops < t.hopCap ∧
      ∃ fuel, (({ t with ready := [] } : Turn β).visit index).run fuel = some r := by
  have hid : t.playback.id = origin.playback.id :=
    congrArg Playback.Identity.id h.calm.identity
  refine h.striding.within hS hunforked hr ?_
  rw [hid, h.calm.world.events]
  exact hforced

/-- A skip that comes to a node within the limit enters it. -/
theorem Striding.exists_treads (hS : Heritable S) (h : Striding S p t index)
    (hhops : t.playback.hops < t.hopCap) {endings : List Ending}
    (hplace : p.plan[index]? = some (endings, true)) {fuel : Nat}
    (hr : (({ t with ready := [] } : Turn β).visit index).run fuel = some r) :
    ∃ more u, t.Treads (.entered index :: more) u ∧ r = u.view := by
  obtain ⟨u, n, b, hskips⟩ := exists_skips hS h hhops hplace
  obtain ⟨c, hready, hstep, hindex⟩ := h.ready
  have hfirst : t.Treads _ _ := Treads.refl.next h.running hready
  rw [advance, hstep, hindex, hskips.paces c hstep hindex] at hfirst
  obtain ⟨more, v, hmore, hview, -⟩ := exists_treads_of_run hr
  exact ⟨_, v, hfirst.trans hmore, hview⟩

/-- A skip that is not killed goes the way that the nodes remember. -/
theorem exists_retracing (hS : Heritable S) (hunforked : ∀ i b, S i b → Behaviour.fansOut b = false)
    (horigin : Striding S p origin start) {fuel : Nat} (hr : origin.run fuel = some r)
    (hforced : r.2.eventsOf origin.playback.id ≠
      origin.world.eventsOf origin.playback.id ++ [.ended true])
    (hway : p.Way start trail index) (honce : (trail.filterMap Pace.entered?).Nodup)
    (hkinds : ∀ i ending, .left i ending ∈ trail → Branching S i ∨ Unvarying S i)
    (hmemos : ∀ i ending, .left i ending ∈ trail → ∃ output,
      memoAt origin.playback.nodes i = some output ∧ p.Chose S i ending output) :
    ∃ t, Retracing S p origin trail t index ∧ ∃ fuel, t.run fuel = some r := by
  induction hway with
  | here =>
    refine ⟨origin, ?_, fuel, hr⟩
    exact ⟨.refl, horigin, .refl origin, fun _ _ => rfl,
      fun _ _ hmem => absurd hmem List.not_mem_nil, [], (List.append_nil _).symm, rfl,
      fun _ hc => absurd hc List.not_mem_nil⟩
  | passed hway hplace ih =>
    rw [List.filterMap_append] at honce
    obtain ⟨t, h, fuel, hrun⟩ := ih (List.nodup_append.mp honce).1
      (fun i ending hi => hkinds i ending (List.mem_append_left _ hi))
      (fun i ending hi => hmemos i ending (List.mem_append_left _ hi))
    obtain ⟨hhops, hnext⟩ := h.within hS hunforked hrun hforced
    exact ⟨_, h.pass hS hunforked hhops hplace, hnext⟩
  | @left trail index target endings ending hway hplace htarget ih =>
    -- Each node is entered once, so this one has not been left before.
    have hnew := entered_not_mem honce
    have hlast : Pace.left index ending ∈ trail ++ [.entered index, .left index ending] := by simp
    rw [List.filterMap_append] at honce
    obtain ⟨t, h, fuel, hrun⟩ := ih (List.nodup_append.mp honce).1
      (fun i ending hi => hkinds i ending (List.mem_append_left _ hi))
      (fun i ending hi => hmemos i ending (List.mem_append_left _ hi))
    obtain ⟨hhops, hnext⟩ := h.within hS hunforked hrun hforced
    obtain ⟨output, hmemo, hchose⟩ := hmemos index ending hlast
    exact ⟨_, h.leave hS hunforked hhops hplace htarget (hkinds index ending hlast)
      (fun ending' hmem => hnew (hway.entered_of_left hmem)) hmemo hchose, hnext⟩

/-! ### Behind the end of the trail -/

/-- No node remembers an output that it would take again. -/
def Fresh (S : Nat → β → Prop) (t : Turn β) : Prop :=
  ∀ i, memoAt t.playback.nodes i = none ∨ Unvarying S i

/-- A skip that has gone all the way has forgotten what the nodes on it remembered. -/
theorem Retracing.fresh (h : Retracing S p origin trail t index)
    (hothers : ∀ i, (∀ ending, .left i ending ∉ trail) → memoAt origin.playback.nodes i = none) :
    Fresh S t := by
  intro i
  by_cases hi : ∃ ending, .left i ending ∈ trail
  · obtain ⟨ending, hi⟩ := hi
    exact h.read i ending hi
  · have hunleft : ∀ ending, .left i ending ∉ trail := fun ending hmem => hi ⟨ending, hmem⟩
    exact Or.inl ((h.unread i hunleft).trans (hothers i hunleft))

/-- A skip only forgets, so there is nothing to be remembered later. -/
theorem Changes.fresh (hc : t.Changes u) (hs : u.playback.skipping = true) (h : Fresh S t) :
    Fresh S u := by
  have hmemos : u.playback.skipping = true → ∀ i output, memoAt u.playback.nodes i = some output →
      memoAt t.playback.nodes i = some output :=
    hc.invariant (I := fun v : Turn β => v.playback.skipping = true → ∀ i output,
      memoAt v.playback.nodes i = some output → memoAt t.playback.nodes i = some output)
      (fun _ _ _ hmemo => hmemo)
      fun _ _ hv _ hchange hskip i output hmemo =>
        hv (hchange.skipping hskip) i output (hchange.memoAt_of_skipping hskip hmemo)
  intro i
  cases hmemo : memoAt u.playback.nodes i with
  | none => exact Or.inl rfl
  | some output =>
    refine (h i).imp_left fun hnone => ?_
    have hbefore := hmemos hs i output hmemo
    simp [hnone] at hbefore

/-- A node that has been skipped is asked unless it has no outputs. -/
theorem asked_of_fresh (h : Fresh S t) (hpause : t.playback.pauseRequested = false)
    (hn : t.playback.nodes[index]? = some node)
    (hfan : Behaviour.fansOut (t.skipOutcome index b).behaviour = false)
    (hown : S index (t.skipOutcome index b).behaviour) :
    (t.called .skip index b (t.skipOutcome index b) false).asked index =
      ((t.call .skip index b).question? (t.skipOutcome index b)).toList := by
  obtain ⟨n, hn', hb, -, hmemo, -⟩ := exists_node_called hn .skip b (t.skipOutcome index b) false
  have hrecalls : (t.called .skip index b (t.skipOutcome index b) false).recalled? n
      (t.skipOutcome index b).behaviour = none := by
    -- Either there is nothing to be remembered, or one output leaves no choice.
    unfold recalled?
    split_ifs with hseveral
    · rcases h index with hnone | hkind
      · rw [memoAt, hn, Option.bind_some] at hnone
        exact hmemo.trans hnone
      · simp [hkind.outputs _ hown] at hseveral
    · rfl
  have hpause' : (t.called .skip index b (t.skipOutcome index b) false).playback.pauseRequested =
      false := hpause
  unfold asked
  rw [hpause', if_neg Bool.false_ne_true, hn', Option.bind_some]
  unfold question? Call.question?
  rw [hb]
  dsimp only
  rw [hfan, Bool.false_and, if_neg Bool.false_ne_true, hrecalls]
  rfl

/-- Where nothing is remembered a place calls its node and asks it. -/
theorem Striding.asksEvery (hS : Heritable S)
    (hunforked : ∀ i b, S i b → Behaviour.fansOut b = false) (h : Striding S p t index)
    (hfresh : Fresh S t) :
    ∃ calls, (({ t with ready := [] } : Turn β).visit index).world.calls =
      t.world.calls ++ calls ∧ AsksEvery calls := by
  let u : Turn β := { t with ready := [] }
  have hskip : u.playback.skipping = true := h.skipping
  rcases calls_visit_of_skipping hskip index with hcalls | ⟨node, b, hn, hb, hhop, hcalls⟩
  · exact ⟨[], hcalls.trans (List.append_nil _).symm, .nil⟩
  · -- A behaviour was called, so the limit had not been reached.
    have hcap : u.playback.hops < u.hopCap := by
      by_contra hbeyond
      rw [(hop_beyond hskip (Nat.le_of_not_lt hbeyond)).1] at hhop
      exact Bool.false_ne_true hhop
    let v : Turn β := u.hopped
    have hhop₁ : u.hop.1 = v := congrArg Prod.fst (hop_within hskip hcap)
    rw [hhop₁] at hn hcalls
    have hown : S index (v.skipOutcome index (v.assigned b)).behaviour :=
      hS.skip (inherits_assigned hS (h.inherits.of_getElem? hn hb)) _ _
    have hasked := asked_of_fresh (t := v) hfresh h.notPausing hn (hunforked _ _ hown) hown
    refine ⟨_, hcalls, ?_⟩
    rw [hasked, ← List.append_nil (Option.toList _)]
    exact .skipped _ index _ .nil

/-- From where nothing is remembered a skip asks every node that it skips. -/
theorem asksEvery_run (hS : Heritable S) (hunforked : ∀ i b, S i b → Behaviour.fansOut b = false)
    (h : Striding S p t index) (hfresh : Fresh S t) {fuel : Nat} (hr : t.run fuel = some r) :
    ∃ calls, r.2.calls = t.world.calls ++ calls ∧ AsksEvery calls := by
  let I : Turn β → Prop := fun v =>
    (∃ calls, v.world.calls = t.world.calls ++ calls ∧ AsksEvery calls) ∧
      (v.playback.phase = .running → (∃ i, Striding S p v i) ∧ Fresh S v)
  have hstep : ∀ (v : Turn β) (b : Branch) (rest : List Branch), I v →
      v.playback.phase = .running → v.ready = b :: rest →
      I (({ v with ready := rest } : Turn β).advance b) := by
    rintro v b rest ⟨⟨calls, hcalls, hasks⟩, hgoes⟩ hrun hready
    obtain ⟨⟨i, hv⟩, hvfresh⟩ := hgoes hrun
    obtain ⟨c, hc, hstep, rfl⟩ := hv.ready
    obtain ⟨rfl, rfl⟩ := List.cons_eq_cons.mp (hready.symm.trans hc)
    obtain ⟨more, hmore, hasksMore⟩ := hv.asksEvery hS hunforked hvfresh
    have hadvance : ({ v with ready := [] } : Turn β).advance b =
        ({ v with ready := [] } : Turn β).visit b.index := by rw [advance, hstep]
    rw [hadvance]
    refine ⟨⟨calls ++ more, ?_, hasks.append hasksMore⟩, fun hrun' => ?_⟩
    · rw [hmore, hcalls, List.append_assoc]
    · have hchanges := changes_visit ({ v with ready := [] } : Turn β) b.index hrun
      have hnext := hv.next hS hunforked
      generalize ({ v with ready := [] } : Turn β).visit b.index = x at hchanges hnext hrun'
      cases hnext with
      -- Once the skip is over nothing is left to be shown.
      | killed _ hfinished => simp [hfinished.1] at hrun'
      | ended _ _ hu =>
        rw [hu] at hrun'
        simp [endRun] at hrun'
      | onward _ _ _ hon => exact ⟨⟨_, hon⟩, hchanges.fresh hon.skipping hvfresh⟩
  have hbegin : I t := ⟨⟨[], (List.append_nil _).symm, .nil⟩, fun _ => ⟨⟨index, h⟩, hfresh⟩⟩
  obtain ⟨u, ⟨hcalls, -⟩, rfl, -⟩ := run_induction hstep hbegin hr
  exact hcalls

end Turn

/-! ### Skips of runs that have not ended -/

namespace Playback

open Turn

variable {S : Nat → β → Prop} {p q : Playback β} {w : World β} {start : Nat} {trail : List Pace}

omit [Behaviour β] in
/-- A skip of a playback that is active remembers what the playback did. -/
theorem memoAt_skipTurn (hq : q.isActive = true) (w : World β) (start i : Nat) :
    memoAt (q.skipTurn w start).playback.nodes i = memoAt q.nodes i := by
  have hnodes : (q.skipTurn w start).playback.nodes = q.clearBranches.nodes := by
    simp only [skipTurn, skippingFrom, hq, if_true]
  rw [hnodes]
  unfold memoAt clearBranches
  rw [List.getElem?_map]
  cases q.nodes[i]? <;> rfl

/-- A skip of a run that is live begins where the run did. -/
theorem striding_skipTurn (h : Live S p start trail (.still (q, w))) :
    Striding S p (q.skipTurn w start) start := by
  have hsame : p.SamePlan q := h.samePlan
  have hbegins : q.beginning w (.skip start) = q.skipTurn w start :=
    if_neg (Nat.not_le.mpr (hsame.length_eq ▸ h.inRange))
  exact
    { running := rfl
      skipping := rfl
      notPausing := rfl
      pending := q.skippingFrom_pending start
      ready := ⟨_, rfl, rfl, rfl⟩
      samePlan := hsame.trans (hbegins ▸ q.samePlan_beginning w (.skip start))
      inherits := hbegins ▸ Inherits.beginning (p := q) h.inherits w (.skip start) }

/-- A skip that starts where a run has started that is still under way returns. Unless it is killed
it goes the same way first, if no node has been entered twice and the nodes with one output always
give the same answer. It skips the nodes of the trail in the same order and leaves them through the
same endings, whatever behaviours and variables are by now, and asks only those that have one
output. From the place on where the run is, every node is asked that has outputs. -/
theorem skip_replays (hS : Heritable S) (hunforked : ∀ i b, S i b → Behaviour.fansOut b = false)
    (hin : p.Inherits S) {w' : World β} {queue : Bool}
    (hplayed : p.Played w start queue trail (q, w')) (hrun : q.phase = .running)
    (honce : (trail.filterMap Pace.entered?).Nodup)
    (hkinds : ∀ i ending, .left i ending ∈ trail → Branching S i ∨ Unvarying S i) :
    ∃ r, (∀ fuel, p.nodes.length * max w'.config.hopFactor 1 < fuel →
        q.skip fuel w' start = some r) ∧
      (Event.Kind.ended true ∉ w'.news r.2 q.id → ∃ (path rest : List Pace) (t u : Turn β),
        (q.skipTurn w' start).Treads path t ∧ t.Treads rest u ∧ r = u.view ∧
        (path = trail ∨ ∃ i more, trail = path ++ [.entered i] ∧ rest = .entered i :: more) ∧
        (∃ calls, t.world.calls = w'.calls ++ calls ∧
          (calls.filter (·.form = .skip)).map (·.index) = path.filterMap Pace.entered? ∧
          ∀ c ∈ calls, c.form = .skip ∨ c.form = .choose ∧ Unvarying S c.index) ∧
        ∃ calls, r.2.calls = t.world.calls ++ calls ∧ AsksEvery calls) := by
  have hlive := hplayed.live hS hunforked hin honce hrun
  have horigin := striding_skipTurn hlive
  have hactive : q.isActive = true := by simp [isActive, hrun]
  have hid : (q.skipTurn w' start).playback.id = q.id := q.skippingFrom_id start
  have hmemos := memoAt_skipTurn hactive w' start
  have hlength : q.nodes.length = p.nodes.length := hlive.samePlan.length_eq
  obtain ⟨r, hturn⟩ := horigin.exists_run hS hunforked (Nat.le_add_left _ _)
  refine ⟨r, fun fuel hfuel => ?_, fun hforced => ?_⟩
  · have hcap := q.hopCap_skipTurn w' start
    -- The limit is reckoned modulo the range of a word and is only smaller for that.
    have hle := Nat.mod_le (q.nodes.length * max w'.config.hopFactor 1) UInt64.size
    have hstart := hlive.inRange
    rw [skip_eq, if_neg (by omega)]
    exact run_mono hturn (by rw [hcap]; rw [hlength] at hle ⊢; omega)
  have hforced' : r.2.eventsOf (q.skipTurn w' start).playback.id ≠
      (q.skipTurn w' start).world.eventsOf (q.skipTurn w' start).playback.id ++ [.ended true] := by
    -- Killed, the skip would have told so after its first two events.
    intro hevents
    rw [hid, q.eventsOf_skipTurn, List.append_assoc] at hevents
    rw [World.news_of_eventsOf_eq_append hevents] at hforced
    exact hforced (List.mem_append_right _ (List.mem_singleton.mpr rfl))
  obtain ⟨path, index, hway, hremembers, hpath, hplace⟩ := hlive.exists_way
  obtain ⟨t, hback, fuel', hr⟩ := exists_retracing hS hunforked horigin hturn hforced' hway
    (honce.sublist (hpath.sublist.filterMap Pace.entered?))
    (fun i ending hi => hkinds i ending (hpath.subset hi))
    fun i ending hi => by
      rw [hmemos]
      exact hremembers.left i ending hi
  have hfresh : Fresh S t := hback.fresh fun i hi => (hmemos i).trans (hremembers.others i hi)
  obtain ⟨rest, u, htreads, hview, hfirst⟩ : ∃ rest u, t.Treads rest u ∧ r = u.view ∧
      (path = trail ∨ ∃ i more, trail = path ++ [.entered i] ∧ rest = .entered i :: more) := by
    -- The skip has come where the run was, or to the node in which the run waits.
    rcases hplace with hsame | ⟨endings, htrail, hn⟩
    · obtain ⟨rest, u, hu, hview, -⟩ := exists_treads_of_run hr
      exact ⟨rest, u, hu, hview, Or.inl hsame⟩
    · obtain ⟨hhops, fuel'', hr'⟩ := hback.within hS hunforked hr hforced'
      obtain ⟨more, u, hu, hview⟩ := hback.striding.exists_treads hS hhops hn hr'
      exact ⟨_, u, hu, hview, Or.inr ⟨index, more, htrail, rfl⟩⟩
  obtain ⟨calls, hcalls, hentered, hforms⟩ := hback.calls
  rw [q.calls_skipTurn] at hcalls
  exact ⟨path, rest, t, u, hback.treads, htreads, hview, hfirst, ⟨calls, hcalls, hentered, hforms⟩,
    asksEvery_run hS hunforked hback.striding hfresh hr⟩

/-- A comment, a choice in turn between the two nodes that follow and the last one, a wait, and two
more comments. -/
def holding : Playback Builtin where
  id := 0
  graph := "hold"
  nodes :=
    [{ id := "", kind := "comment", title := "", enabled := true, endings := [.next],
       behaviour := some (.comment ⟨"before"⟩) },
     { id := "", kind := "cycle", title := "", enabled := true, endings := [.next, .goto 4],
       behaviour := some (.cycle { outputs := 2, holdsLast := false }) },
     { id := "", kind := "wait", title := "", enabled := true, endings := [.next],
       behaviour := some (.wait ⟨2, none⟩) },
     { id := "", kind := "comment", title := "", enabled := true, endings := [.next],
       behaviour := some (.comment ⟨"left"⟩) },
     { id := "", kind := "comment", title := "", enabled := true, endings := [.next],
       behaviour := some (.comment ⟨"right"⟩) }]
  parameters := ⟨[]⟩
  settings := {}

/-- One node takes two outputs in turn, the others have one. -/
def TakesTurns (index : Nat) (b : Builtin) : Prop :=
  (∃ c, b = .cycle c ∧ c.outputs = 2) ∧ index = 1 ∨
    ((∃ c, b = .comment c) ∨ ∃ c, b = .wait c) ∧ index ≠ 1

theorem heritable_takesTurns : Heritable TakesTurns where
  assign := by
    rintro index b (⟨⟨c, rfl, hc⟩, rfl⟩ | ⟨⟨c, rfl⟩ | ⟨c, rfl⟩, hi⟩) parameters
    · exact Or.inl ⟨⟨c, rfl, hc⟩, rfl⟩
    · exact Or.inr ⟨Or.inl ⟨c, rfl⟩, hi⟩
    · exact Or.inr ⟨Or.inr ⟨_, rfl⟩, hi⟩
  run := by
    rintro index b (⟨⟨c, rfl, hc⟩, rfl⟩ | ⟨⟨c, rfl⟩ | ⟨c, rfl⟩, hi⟩) ctx vars
    · exact Or.inl ⟨⟨c, rfl, hc⟩, rfl⟩
    · exact Or.inr ⟨Or.inl ⟨c, rfl⟩, hi⟩
    · exact Or.inr ⟨Or.inr ⟨_, rfl⟩, hi⟩
  skip := by
    rintro index b (⟨⟨c, rfl, hc⟩, rfl⟩ | ⟨⟨c, rfl⟩ | ⟨c, rfl⟩, hi⟩) ctx vars
    · exact Or.inl ⟨⟨c, rfl, hc⟩, rfl⟩
    · exact Or.inr ⟨Or.inl ⟨c, rfl⟩, hi⟩
    · exact Or.inr ⟨Or.inr ⟨_, rfl⟩, hi⟩
  choose := by
    rintro index b (⟨⟨c, rfl, hc⟩, rfl⟩ | ⟨⟨c, rfl⟩ | ⟨c, rfl⟩, hi⟩) ctx vars
    · exact Or.inl ⟨⟨_, rfl, hc⟩, rfl⟩
    · exact Or.inr ⟨Or.inl ⟨c, rfl⟩, hi⟩
    · exact Or.inr ⟨Or.inr ⟨_, rfl⟩, hi⟩

theorem takesTurns_kinds (index : Nat) :
    Branching TakesTurns index ∨ Unvarying TakesTurns index := by
  by_cases hi : index = 1
  · refine Or.inl ?_
    -- The node in the second place is the one with a choice.
    rintro b (⟨⟨c, rfl, hc⟩, -⟩ | ⟨-, hne⟩)
    · change 1 < c.outputs
      omega
    · exact absurd hi hne
  · -- All others take the same output whatever they are asked with.
    refine Or.inr ⟨?_, 0, ?_⟩
    · rintro b (⟨-, heq⟩ | ⟨⟨c, rfl⟩ | ⟨c, rfl⟩, -⟩)
      · exact absurd heq hi
      · rfl
      · rfl
    · rintro b ctx vars (⟨-, heq⟩ | ⟨⟨c, rfl⟩ | ⟨c, rfl⟩, -⟩)
      · exact absurd heq hi
      · rfl
      · rfl

theorem inherits_holding : holding.Inherits TakesTurns := by
  intro index b hb
  rcases index with _ | _ | _ | _ | _ | index <;> cases hb
  · exact Or.inr ⟨Or.inl ⟨_, rfl⟩, by decide⟩
  · exact Or.inl ⟨⟨_, rfl, rfl⟩, rfl⟩
  · exact Or.inr ⟨Or.inr ⟨_, rfl⟩, by decide⟩
  · exact Or.inr ⟨Or.inl ⟨_, rfl⟩, by decide⟩
  · exact Or.inr ⟨Or.inl ⟨_, rfl⟩, by decide⟩

/-- The run waits, and the skip takes the first output of the choice although it would be the turn
of the second. -/
theorem skip_replays_holding : ∃ (s r : Playback Builtin × World Builtin) (path rest : List Pace)
    (t u : Turn Builtin), holding.play 3 {} 0 false = some s ∧ s.1.skip 16 s.2 0 = some r ∧
      (s.1.skipTurn s.2 0).Treads path t ∧ t.Treads rest u ∧ r = u.view ∧
      [Pace.entered 0, .left 0 .next, .entered 1, .left 1 .next, .entered 2] <+: path ++ rest ∧
      ∃ calls, t.world.calls = s.2.calls ++ calls ∧
        (calls.filter (·.form = .skip)).map (·.index) = path.filterMap Pace.entered? ∧
        ∀ c ∈ calls, c.form = .skip ∨ c.form = .choose ∧ Unvarying TakesTurns c.index := by
  have hunforked : ∀ i b, TakesTurns i b → Behaviour.fansOut b = false := by
    rintro i b (⟨⟨c, rfl, -⟩, -⟩ | ⟨⟨c, rfl⟩ | ⟨c, rfl⟩, -⟩) <;> rfl
  obtain ⟨⟨q, w⟩, hplay, hplayed, hrun, hfactor, r', hr', hends⟩ :
      ∃ s : Playback Builtin × World Builtin, holding.play 3 {} 0 false = some s ∧
      holding.Played {} 0 false
        [.entered 0, .left 0 .next, .entered 1, .left 1 .next, .entered 2] s ∧
      s.1.phase = .running ∧ s.2.config.hopFactor = 3 ∧ ∃ r', s.1.skip 16 s.2 0 = some r' ∧
        Event.Kind.ended true ∉ s.2.news r'.2 s.1.id := by
    have hstart := Treads.refl (t := holding.playBeginning {} 0 false)
    have hbefore := (hstart.next rfl rfl).next rfl rfl
    have htreads : (holding.playBeginning {} 0 false).Treads
        [.entered 0, .left 0 .next, .entered 1, .left 1 .next, .entered 2] _ := hbefore.next rfl rfl
    exact ⟨_, rfl, .played htreads (Or.inl rfl), rfl, rfl, _, rfl, by decide⟩
  obtain ⟨r, hskip, hgoes⟩ := skip_replays heritable_takesTurns hunforked inherits_holding hplayed
    hrun (by decide) fun i _ _ => takesTurns_kinds i
  have hskipped := hskip 16 (by rw [hfactor]; decide)
  obtain rfl := Option.some.inj (hr'.symm.trans hskipped)
  obtain ⟨path, rest, t, u, hback, honward, hview, hfirst, hcalls, -⟩ := hgoes hends
  refine ⟨_, _, path, rest, t, u, hplay, hskipped, hback, honward, hview, ?_, hcalls⟩
  rcases hfirst with rfl | ⟨i, more, htrail, rfl⟩
  · exact List.prefix_append _ _
  · exact ⟨more, by rw [htrail, List.append_assoc]; rfl⟩

end Playback

end Cutscene
