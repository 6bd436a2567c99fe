import Cutscene.Proofs.Playback.Acyclic
import Cutscene.Proofs.Playback.Links
import Mathlib.Logic.Hydra

/-!
# Turns that come to an end

Nothing limits how many branches a turn takes up while nothing is skipped. What a branch makes ready
arrives at places that its node leads to at once (`grows_advance`), so a turn comes to its end if no
place leads back to itself in that way, however many branches there are: each is replaced by some
that come later (`exists_run_of_grounded`). In a circle of nodes that are done at once there is
always a branch left (`run_of_circling`). A node that leads to itself lets a tick pass; two nodes
that lead to each other do not, and an operation that comes to them does not return.
-/

namespace Cutscene

variable {β : Type}

namespace Turn

/-! ### What a branch makes ready -/

/-- The row of branches has been continued, by branches that arrive at places of a kind. -/
def Grows (t : Turn β) (P : Nat → Prop) (u : Turn β) : Prop :=
  ∃ more, u.ready = t.ready ++ more ∧ ∀ c ∈ more, c.step = .visit ∧ P c.index

variable {t u v : Turn β} {P Q : Nat → Prop}

theorem grows_of_ready_eq (P : Nat → Prop) (h : u.ready = t.ready) : t.Grows P u :=
  ⟨[], by rw [h, List.append_nil], fun _ hc => absurd hc List.not_mem_nil⟩

theorem Grows.trans (h : t.Grows P u) (h' : u.Grows P v) : t.Grows P v := by
  obtain ⟨more, hu, hmore⟩ := h
  obtain ⟨more', hv, hmore'⟩ := h'
  refine ⟨more ++ more', by rw [hv, hu, List.append_assoc], fun c hc => ?_⟩
  exact (List.mem_append.mp hc).elim (hmore c) (hmore' c)

theorem Grows.mono (h : t.Grows P u) (hPQ : ∀ j, P j → Q j) : t.Grows Q u := by
  obtain ⟨more, hu, hmore⟩ := h
  exact ⟨more, hu, fun c hc => ⟨(hmore c hc).1, hPQ _ (hmore c hc).2⟩⟩

theorem grows_push (t : Turn β) {b : Branch} (hb : b.step = .visit) (hP : P b.index) :
    t.Grows P (t.push b) :=
  ⟨[b], rfl, fun _ hc => List.mem_singleton.mp hc ▸ ⟨hb, hP⟩⟩

theorem ready_settle (t : Turn β) : t.settle.ready = t.ready := by
  unfold settle
  split_ifs <;> rfl

/-- Only endings that do not hold a branch back make one ready. -/
theorem grows_followAll (hs : t.playback.skipping = false) (index : Nat) (endings : List Ending)
    (hP : ∀ ending ∈ endings, t.playback.holdsBack index ending = false →
      ∀ j ∈ t.playback.target? index ending, P j) :
    t.Grows P (t.followAll index endings).1 := by
  induction endings generalizing t with
  | nil => exact grows_of_ready_eq P rfl
  | cons ending rest ih =>
    have hrest : ∀ ending ∈ rest, t.playback.holdsBack index ending = false →
        ∀ j ∈ t.playback.target? index ending, P j :=
      fun ending he => hP ending (List.mem_cons_of_mem _ he)
    rw [followAll]
    rcases t.follow_cases index ending with ⟨-, hnone, hplayback, hready⟩ |
      ⟨b, hfollow, hstep, htarget, hwake⟩
    · rcases hf : t.follow index ending with ⟨u, _ | b⟩ <;> rw [hf] at hnone hplayback hready
      · have hplayback : u.playback = t.playback := hplayback
        exact (grows_of_ready_eq P hready).trans
          (ih (by rw [hplayback]; exact hs) (by rw [hplayback]; exact hrest))
      · simp at hnone
    · rw [hfollow]
      dsimp only
      split_ifs with hnow
      · have hheld : t.playback.holdsBack index ending = false :=
          (hwake.mp hnow).resolve_left (by simp [hs])
        have hpush := t.grows_push hstep (hP ending List.mem_cons_self hheld _ htarget)
        exact hpush.trans (ih (t := t.push b) hs hrest)
      · -- The branch waits, which nothing that leads from here depends on.
        have hsame : t.playback.SamePlan (t.defer b).playback := ⟨rfl, rfl, rfl⟩
        refine (grows_of_ready_eq P (u := t.defer b) rfl).trans (ih (t := t.defer b) hs ?_)
        intro ending he hheld j hj
        rw [hsame.holdsBack_eq] at hheld
        rw [hsame.target?_eq] at hj
        exact hrest ending he hheld j hj

variable [Behaviour β]

/-- A node that is done makes those branches ready that its endings lead to at once. -/
theorem grows_finish (hrun : t.playback.phase = .running) (hs : t.playback.skipping = false)
    {index : Nat} {node : Node β} (hn : t.playback.nodes[index]? = some node)
    (hP : ∀ ending ∈ node.endings, ∀ b, node.behaviour = some b → Behaviour.outputs b ≠ 0 →
      t.playback.holdsBack index ending = false → ∀ j ∈ t.playback.target? index ending, P j) :
    t.Grows P (t.finish index) := by
  cases hpause : t.playback.pauseRequested with
  | true =>
    rw [finish_of_pauseRequested hn hpause]
    -- With a pause asked for nothing leads on.
    split_ifs
    · exact grows_of_ready_eq P rfl
    · exact grows_of_ready_eq P rfl
  | false =>
    have hready : (t.resolved index node).ready = t.ready :=
      ((t.rest index).sameBranches_endings index node).ready
    have hsame := (changes_resolved hrun hn).samePlan
    have hfollow : (t.resolved index node).Grows P
        ((t.resolved index node).followAll index (t.exits index node)).1 := by
      refine grows_followAll ((t.forward_resolved index node).calm.skipping.trans hs) index _ ?_
      intro ending he hheld j hj
      rw [hsame.holdsBack_eq] at hheld
      rw [hsame.target?_eq] at hj
      rcases mem_of_mem_endings he with rfl | ⟨hmem, b, hb, houtputs⟩
      · -- An ending that stands for none of the node leads nowhere.
        simp [Playback.target?] at hj
      · exact hP ending hmem b hb houtputs hheld j hj
    rw [finish_of_following hn hpause]
    refine (grows_of_ready_eq P hready).trans ?_
    unfold resolved leave
    unfold resolved exits at hfollow
    rcases hf : ((t.rest index).endings index node).1.followAll index
        ((t.rest index).endings index node).2 with ⟨u, _ | _⟩ <;> rw [hf] at hfollow
    · exact hfollow.trans (grows_of_ready_eq P u.ready_settle)
    · exact hfollow

variable {S : Nat → β → Prop} {p : Playback β}

/-- A branch that arrives at a node makes those branches ready that the node leads to at once. -/
theorem grows_advance (hS : Heritable S) (hrun : t.playback.phase = .running)
    (hs : t.playback.skipping = false) (hplan : p.SamePlan t.playback)
    (hinherits : t.playback.Inherits S) (b : Branch) :
    t.Grows (fun j => b.step = .visit → p.LeadsAtOnce S b.index j) (t.advance b) := by
  have htaken := taken_advance hs b
  generalize t.advance b = u at htaken
  cases htaken with
  | lost => exact grows_of_ready_eq _ t.ready_settle
  | @passed node _ hn hr =>
    have hplace := Playback.plan_of_getElem? hn
    rw [hplan.plan, hr] at hplace
    exact t.grows_push rfl fun _ => .passed hplace
  | suspended => exact grows_of_ready_eq _ rfl
  | @completed node running behaviour hn hr ho =>
    have hran : t.Change (t.ran b.index running behaviour) := by
      cases hr with
      | arrives _ _ hb₀ => exact .ran hn hb₀ (Or.inr rfl) hs
      | continues _ hb₀ => exact .ran hn hb₀ (Or.inl rfl) hs
    have hn' := getElem?_ran hn running behaviour
    have hplan' := hplan.trans hran.samePlan
    refine (grows_of_ready_eq _ (t := t) (u := t.ran b.index running behaviour) rfl).trans
      (grows_finish (t := t.ran b.index running behaviour) hrun hs hn' ?_)
    intro ending he b' hb' houtputs hheld j hj hvisit
    obtain rfl := Option.some.inj hb'
    rw [hplan'.holdsBack_eq] at hheld
    rw [hplan'.target?_eq] at hj
    cases hr with
    | @arrives b₀ _ henabled hb₀ =>
      have hplace := Playback.plan_of_getElem? hn
      rw [hplan.plan] at hplace
      have hrunnable : node.isRunnable = true := by simp [Node.isRunnable, henabled, hb₀]
      rw [hrunnable] at hplace
      have hown : S b.index (t.assigned b₀) := inherits_assigned hS (hinherits.of_getElem? hn hb₀)
      -- It has been done at once, so it does not wait in the sense of the graph either.
      have hwaits : ¬ Playback.Waits (t.context b.index false) t.world.vars (t.assigned b₀) := by
        rintro ⟨hgo, hwait⟩
        exact Bool.false_ne_true ((ho hgo).2.symm.trans hwait)
      exact .left hplace hown hwaits houtputs he hj hheld
    -- A branch that polls has waited for a tick, which is not held against it.
    | continues hpoll _ => simp [hvisit] at hpoll
  | @resolved node hn hb =>
    refine grows_finish hrun hs hn fun _ _ _ _ _ _ _ _ hvisit => ?_
    rcases hb with hb | ⟨hb, -⟩ <;> simp [hvisit] at hb

/-! ### Turns without a circle -/

/-- A branch that comes later than another one: it arrives at a place, and if the other one does so
too, at one that the other's leads to at once. -/
def ComesLater (S : Nat → β → Prop) (p : Playback β) (c b : Branch) : Prop :=
  c.step = .visit ∧ (b.step = .visit → p.LeadsAtOnce S b.index c.index)

theorem wellFounded_comesLater (hS : Heritable S)
    (hacyclic : ∀ i, ¬ Relation.TransGen (p.LeadsAtOnce S) i i) :
    WellFounded (ComesLater S p) := by
  have harrives : ∀ i, ∀ b : Branch, b.step = .visit → b.index = i → Acc (ComesLater S p) b := by
    intro i
    induction acc_of_acyclic (fun _ _ h => (Playback.LeadsAtOnce.mayLead hS h).lt_length) hacyclic i
      with
    | intro i _ ih =>
      rintro b hb rfl
      exact ⟨b, fun c hc => ih c.index (hc.2 hb) c hc.1 rfl⟩
  exact ⟨fun b => ⟨b, fun c hc => harrives c.index c hc.1 rfl⟩⟩

/-- Without a circle a turn comes to its end. -/
theorem exists_run_of_grounded (hS : Heritable S)
    (hacyclic : ∀ i, ¬ Relation.TransGen (p.LeadsAtOnce S) i i) (t : Turn β)
    (hs : t.playback.skipping = false) (hplan : p.SamePlan t.playback)
    (hinherits : t.playback.Inherits S) : ∃ fuel r, t.run fuel = some r := by
  have hwf := (wellFounded_comesLater (p := p) hS hacyclic).cutExpand
  -- The branches that are ready get later and later.
  generalize hrow : (t.ready : Multiset Branch) = row
  induction row using hwf.induction generalizing t with
  | _ row ih =>
    rcases t.over_or_ready with hover | ⟨hrun, b, rest, hready⟩
    · exact ⟨0, _, run_of_over hover 0⟩
    · let u : Turn β := { t with ready := rest }
      have hchanges : u.Changes (u.advance b) := changes_advance u b hrun fun h => by
        have hnot : t.playback.skipping = true := h
        simp [hs] at hnot
      have hsame : t.playback.SamePlan u.playback := .refl _
      obtain ⟨more, hmore, hlater⟩ :=
        grows_advance (t := u) hS hrun hs (hplan.trans hsame) hinherits b
      have hexpand : Relation.CutExpand (ComesLater S p)
          ((u.advance b).ready : Multiset Branch) row := by
        refine ⟨(more : Multiset Branch), b, fun c hc => hlater c (by simpa using hc), ?_⟩
        rw [← hrow, hready, hmore, ← Multiset.coe_singleton, Multiset.coe_add, Multiset.coe_add,
          Multiset.coe_eq_coe]
        exact List.perm_append_singleton b (rest ++ more)
      obtain ⟨fuel, r, hr⟩ := ih _ hexpand (u.advance b) (hchanges.notSkipping hs)
        (hplan.trans hchanges.samePlan) (hchanges.inherits hS hinherits) rfl
      exact ⟨fuel + 1, r, (run_of_ready_eq_cons hrun hready fuel).trans hr⟩

/-! ### Circles -/

end Turn

namespace Playback

variable [Behaviour β]

/-- A branch that arrives at a place goes on to a place of a kind within the turn: the node is
passed over, or it is done by its first call and takes an output that leads to such a place at once,
whatever it sees. -/
inductive GoesTo (S : Nat → β → Prop) (p : Playback β) (C : Nat → Prop) (index : Nat) : Prop
  | passed {endings : List Ending} (hn : p.plan[index]? = some (endings, false))
    (hC : C (index + 1)) : GoesTo S p C index
  | left {endings : List Ending} (hn : p.plan[index]? = some (endings, true))
    (hdone : ∀ b ctx vars, S index b → ¬ Waits ctx vars b)
    (hsingle : ∀ b ctx vars, S index b →
      Behaviour.fansOut (Behaviour.run ctx vars b).behaviour = false ∧
        Behaviour.outputs (Behaviour.run ctx vars b).behaviour ≠ 0)
    (hsends : ∀ b ctx vars ctx' vars', S index b →
      0 ≤ (Behaviour.choose ctx' vars' (Behaviour.run ctx vars b).behaviour).output ∧
        ∃ ending target, endings[(Behaviour.choose ctx' vars'
            (Behaviour.run ctx vars b).behaviour).output.toNat]? = some ending ∧
          p.target? index ending = some target ∧ p.holdsBack index ending = false ∧ C target) :
    GoesTo S p C index

/-- A circle of places. -/
def Circles (S : Nat → β → Prop) (p : Playback β) (C : Nat → Prop) : Prop :=
  ∀ index, C index → p.GoesTo S C index

end Playback

namespace Turn

variable [Behaviour β] {t u v : Turn β} {S : Nat → β → Prop} {p : Playback β} {C : Nat → Prop}

/-- A branch at a place of a circle makes another one ready. -/
theorem advance_of_circles (hS : Heritable S) (hC : p.Circles S C)
    (hrun : t.playback.phase = .running) (hs : t.playback.skipping = false)
    (hpause : t.playback.pauseRequested = false) (hplan : p.SamePlan t.playback)
    (hinherits : t.playback.Inherits S) {b : Branch} (hb : b.step = .visit) (hin : C b.index) :
    ∃ u c, t.advance b = u.push c ∧ t.Forward 0 u ∧ c.step = .visit ∧ C c.index := by
  have hhop := hop_of_not_skipping hs
  have hhop₁ : t.hop.1 = t := congrArg Prod.fst hhop
  have hhop₂ : t.hop.2 = true := congrArg Prod.snd hhop
  have hadvance : t.advance b = t.visit b.index := by rw [advance, hb]
  rw [hadvance]
  cases hC b.index hin with
  | passed hplace hnext =>
    rw [← hplan.plan] at hplace
    obtain ⟨node, hn, -, hr⟩ := Playback.exists_node_of_plan hplace
    -- The node is passed over, and the next one is on the circle, too.
    rw [visit_of_not_runnable hhop₂ (hhop₁.symm ▸ hn) (isRunnable_eq_false hr), hhop₁]
    exact ⟨t, _, rfl, t.forward_refl, rfl, hnext⟩
  | left hplace hdone hsingle hsends =>
    rw [← hplan.plan] at hplace
    obtain ⟨node, hn, rfl, hr⟩ := Playback.exists_node_of_plan hplace
    obtain ⟨he, hsome⟩ := Bool.and_eq_true_iff.mp hr
    obtain ⟨b₀, hb₀⟩ := Option.isSome_iff_exists.mp hsome
    have hown : S b.index (t.assigned b₀) := inherits_assigned hS (hinherits.of_getElem? hn hb₀)
    let u : Turn β := t.ran b.index false (t.assigned b₀)
    -- The node is done at once.
    have hvisit : t.visit b.index = u.finish b.index := by
      rw [visit_of_runnable hhop₂ (hhop₁.symm ▸ hn) he hb₀, hhop₁, enter_of_playing hs]
      dsimp only
      have hnot := hdone _ (t.context b.index false) t.world.vars hown
      exact if_neg fun hwaits =>
        hnot ⟨(Bool.and_eq_true_iff.mp hwaits).1, (Bool.and_eq_true_iff.mp hwaits).2⟩
    obtain ⟨n, hn', hb, hendings, -⟩ := exists_node_called hn .run (t.assigned b₀)
      (t.runOutcome b.index false (t.assigned b₀))
      (t.runOutcome b.index false (t.assigned b₀)).running
    have hsame : t.playback.SamePlan u.playback :=
      (Change.ran hn hb₀ (Or.inr rfl) hs).samePlan
    obtain ⟨hfan, houtputs⟩ := hsingle _ (t.context b.index false) t.world.vars hown
    obtain ⟨hpos, ending, target, hending, htarget, hheld, hnext⟩ := hsends _
      (t.context b.index false) t.world.vars (u.choiceContext b.index) u.world.vars hown
    have hplan' := hplan.trans hsame
    rw [← hplan'.target?_eq] at htarget
    rw [← hplan'.holdsBack_eq] at hheld
    -- Nothing is skipped, so the behaviour is asked.
    have hnone : ∀ node b, u.recalled? node b = none := fun node b => by
      have hskip : u.playback.skipping = false := hs
      rw [recalled?, hskip, Bool.false_and, if_neg Bool.false_ne_true]
    rw [← hendings] at hending
    have hexits : u.exits b.index n = [ending] :=
      (exits_of_choice hb hfan houtputs (hnone _ _)).1.trans
        (congrArg ([·]) (endingAt_of_getElem? u hpos hending))
    obtain ⟨c, hfinish, hstep, rfl⟩ := finish_of_leads (t := u) hrun hpause hn' hexits htarget
      (Or.inr hheld)
    have hran : t.Forward 0 u := forward_of_modifyNode (t.calm_called ..) rfl
    rw [hvisit, hfinish]
    exact ⟨_, c, rfl, hran.trans (u.forward_resolved b.index _), hstep, hnext⟩

/-- A turn with a branch in a circle. -/
structure Circling (S : Nat → β → Prop) (p : Playback β) (C : Nat → Prop) (t : Turn β) : Prop where
  running : t.playback.phase = .running
  notSkipping : t.playback.skipping = false
  notPausing : t.playback.pauseRequested = false
  samePlan : p.SamePlan t.playback
  inherits : t.playback.Inherits S
  turns : ∃ b ∈ t.ready, b.step = .visit ∧ C b.index

theorem goesOn_advance (hs : t.playback.skipping = false)
    (hpause : t.playback.pauseRequested = false) (b : Branch) : t.GoesOn (t.advance b) := by
  have htaken := taken_advance hs b
  generalize t.advance b = u at htaken
  cases htaken with
  | lost => exact goesOn_settle hpause
  | passed => exact .going ⟨t.calm_push _, rfl, rfl⟩
  | @suspended node running behaviour =>
    have hran : t.Forward 0 (t.ran b.index running behaviour) :=
      forward_of_modifyNode (t.calm_called ..) rfl
    have hsuspended : (t.ran b.index running behaviour).Forward 0
        ((t.ran b.index running behaviour).suspend b.index
          (t.runOutcome b.index running behaviour).wait) := ⟨calm_defer _ _, rfl, rfl⟩
    exact .going (hran.trans hsuspended)
  | @completed node running behaviour =>
    have hran : t.Forward 0 (t.ran b.index running behaviour) :=
      forward_of_modifyNode (t.calm_called ..) rfl
    exact .of_forward hran (goesOn_finish (t := t.ran b.index running behaviour) hpause _)
  | resolved => exact goesOn_finish hpause _

/-- Whichever branch is next, one in the circle is left. -/
theorem Circling.advance (hS : Heritable S) (hC : p.Circles S C) (h : Circling S p C t) {b : Branch}
    {rest : List Branch} (hready : t.ready = b :: rest) :
    Circling S p C (({ t with ready := rest } : Turn β).advance b) := by
  let u : Turn β := { t with ready := rest }
  have hvisit : u.playback.skipping = true → b.step = .visit := fun hs => by
    have hskip : t.playback.skipping = true := hs
    simp [h.notSkipping] at hskip
  have hchanges : u.Changes (u.advance b) := changes_advance u b h.running hvisit
  suffices hkeeps : (u.advance b).playback.phase = .running ∧
      (u.advance b).playback.pauseRequested = false ∧
      ∃ c ∈ (u.advance b).ready, c.step = .visit ∧ C c.index from
    { running := hkeeps.1
      notSkipping := hchanges.notSkipping h.notSkipping
      notPausing := hkeeps.2.1
      samePlan := h.samePlan.trans (hchanges.samePlan : u.playback.SamePlan _)
      inherits := hchanges.inherits hS h.inherits
      turns := hkeeps.2.2 }
  obtain ⟨c, hc, hstep, hin⟩ := h.turns
  rw [hready, List.mem_cons] at hc
  rcases hc with rfl | hc
  · obtain ⟨v, d, hadvance, hforward, hstep', hin'⟩ := advance_of_circles (t := u) hS hC h.running
      h.notSkipping h.notPausing h.samePlan h.inherits hstep hin
    rw [hadvance]
    exact ⟨hforward.calm.phase.trans h.running, hforward.calm.pauseRequested.trans h.notPausing, d,
      List.mem_append_right _ (List.mem_singleton.mpr rfl), hstep', hin'⟩
  · -- The branch in the circle waits for its turn.
    have hne : u.inFlight ≠ [] := List.ne_nil_of_mem (List.mem_append_left _ hc)
    obtain ⟨hphase, -, ⟨more, hmore⟩, -⟩ :=
      (worked_advance hvisit).keeps_row h.notSkipping hne
    have hrun : (u.advance b).playback.phase = .running := hphase.trans h.running
    refine ⟨hrun, ?_, c, ?_, hstep, hin⟩
    · rcases goesOn_advance (t := u) h.notSkipping h.notPausing b with hgo | ⟨-, hover⟩
      · exact hgo.calm.pauseRequested.trans h.notPausing
      · rw [hover] at hrun
        simp [endRun] at hrun
    · rw [hmore]
      exact List.mem_append_left _ hc

/-- A turn with a branch in a circle has no end. -/
theorem run_of_circling (hS : Heritable S) (hC : p.Circles S C) (h : Circling S p C t)
    (fuel : Nat) : t.run fuel = none := by
  induction fuel generalizing t with
  | zero =>
    obtain ⟨b, hb, -⟩ := h.turns
    obtain ⟨c, rest, hready⟩ := List.exists_cons_of_ne_nil (List.ne_nil_of_mem hb)
    exact run_zero_of_ready_eq_cons h.running hready
  | succ fuel ih =>
    obtain ⟨b, hb, -⟩ := h.turns
    obtain ⟨c, rest, hready⟩ := List.exists_cons_of_ne_nil (List.ne_nil_of_mem hb)
    rw [run_of_ready_eq_cons h.running hready]
    exact ih (h.advance hS hC hready)

end Turn

namespace Playback

variable [Behaviour β] {S : Nat → β → Prop}

/-- While nothing is skipped an operation returns if no place leads back to itself at once, however
the nodes behave. If a branch comes to a circle of nodes that are done at once it does not return,
however many branches it may take up. -/
theorem returns_unless_circling (p : Playback β) (hS : Heritable S) (hin : p.Inherits S)
    (hs : p.skipping = false) (w : World β) (op : Operation) (hop : ∀ start, op ≠ .skip start) :
    ((∀ i, ¬ Relation.TransGen (p.LeadsAtOnce S) i i) →
        ∃ fuel r, ∀ more, fuel ≤ more → p.perform more w op = some r) ∧
      ∀ C b, p.Circles S C → (p.beginning w op).playback.phase = .running →
        (p.beginning w op).playback.pauseRequested = false → b ∈ (p.beginning w op).ready →
        b.step = .visit → C b.index → ∀ fuel, p.perform fuel w op = none := by
  have hnot := notSkipping_beginning hs w hop
  have hplan := p.samePlan_beginning w op
  have hinherits := hin.beginning w op
  constructor
  · intro hacyclic
    obtain ⟨fuel, r, hr⟩ := Turn.exists_run_of_grounded hS hacyclic _ hnot hplan hinherits
    refine ⟨fuel, r, fun more hmore => ?_⟩
    rw [perform_eq]
    exact Turn.run_mono hr hmore
  · intro C b hC hrun hpause hb hstep hplace fuel
    rw [perform_eq]
    exact Turn.run_of_circling hS hC
      ⟨hrun, hnot, hpause, hplan, hinherits, b, hb, hstep, hplace⟩ fuel

/-- Two comments that lead to each other. -/
def chasing : Playback Builtin where
  id := 0
  graph := "chase"
  nodes :=
    [{ id := "", kind := "comment", title := "", enabled := true, endings := [.goto 1],
       behaviour := some (.comment ⟨"there"⟩) },
     { id := "", kind := "comment", title := "", enabled := true, endings := [.goto 0],
       behaviour := some (.comment ⟨"here"⟩) }]
  parameters := ⟨[]⟩
  settings := {}

theorem circles_chasing :
    chasing.Circles (fun _ b => ∃ c, b = .comment c) fun i => i = 0 ∨ i = 1 := by
  have hplace : ∀ i target, chasing.plan[i]? = some ([.goto target], true) → target ≠ i →
      target = 0 ∨ target = 1 →
      chasing.GoesTo (fun _ b => ∃ c, b = .comment c) (fun i => i = 0 ∨ i = 1) i := by
    intro i target hn hne htarget
    refine .left hn ?_ ?_ ?_
    · rintro b ctx vars ⟨c, rfl⟩ ⟨hgo, -⟩
      exact Bool.false_ne_true hgo
    · rintro b ctx vars ⟨c, rfl⟩
      exact ⟨rfl, Nat.one_ne_zero⟩
    · rintro b ctx vars ctx' vars' ⟨c, rfl⟩
      exact ⟨Int.le_refl 0, .goto target, target, rfl, rfl, decide_eq_false hne, htarget⟩
  rintro i (rfl | rfl)
  · exact hplace 0 1 rfl Nat.one_ne_zero (Or.inr rfl)
  · exact hplace 1 0 rfl Nat.zero_ne_one (Or.inl rfl)

/-- Two comments in a row are played, and two comments that lead to each other are played without
end. -/
theorem returns_unless_circling_chasing :
    (∃ fuel r, ∀ more, fuel ≤ more → strolling.perform more {} (.play 0 false) = some r) ∧
      ∀ fuel, chasing.perform fuel {} (.play 0 false) = none := by
  constructor
  · have hgrounded : ∀ i, ¬ Relation.TransGen
        (strolling.LeadsAtOnce fun _ b => ∃ c, b = .comment c) i i := fun i hi =>
      acyclic_strolling i (Relation.TransGen.mono
        (fun _ _ => LeadsAtOnce.mayLead heritable_comment) _ _ hi)
    exact (returns_unless_circling strolling heritable_comment
      (.of_nodes (by simp [strolling])) rfl {} (.play 0 false) (by simp)).1 hgrounded
  · exact (returns_unless_circling chasing heritable_comment (.of_nodes (by simp [chasing]))
      rfl {} (.play 0 false) (by simp)).2 _ { index := 0, step := .visit } circles_chasing rfl rfl
      List.mem_cons_self rfl (Or.inl rfl)

end Playback

end Cutscene
