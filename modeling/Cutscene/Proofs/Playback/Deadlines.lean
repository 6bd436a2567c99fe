import Cutscene.Behaviour.Builtin
import Cutscene.Proofs.Playback.Kinds
import Cutscene.Proofs.Playback.Polling
import Cutscene.Proofs.Playback.Updates

/-!
# Waits and their deadlines

A branch that arrives at a wait is kept until its deadline and leaves the node at the first update
from then on (`polls_find_last_stop`), unless another branch that waited in the same node has left
it last. The mark of the node is then gone, and the branch is taken for one that arrives. That is
all that can go wrong: between two calls nothing else takes up a branch that waits
(`Course.spared`), and an update takes up every branch that is due.
-/

namespace Cutscene

/-! ### Waits -/

/-- What is positive is not zero. -/
theorem bne_zero_of_pos {x : Float32} (h : 0 < x) : (x != 0) = true := by
  have hzero : (0 : Float32).toModel.unpack = .zero .positive := rfl
  have hlt : Float.Model.UnpackedFloat.lt (.zero .positive) x.toModel.unpack = true := by
    rw [← hzero]
    exact of_decide_eq_true h
  have hne : Float.Model.UnpackedFloat.beq x.toModel.unpack (.zero .positive) = false := by
    cases hx : x.toModel.unpack with
    | notANumber => rfl
    | zero s =>
      rw [hx] at hlt
      exact absurd hlt Bool.false_ne_true
    | infinity s => cases s <;> rfl
    | finite s m e hm => cases s <;> rfl
  have hbeq : (x == 0) = false := by
    rw [← hzero] at hne
    exact hne
  rw [bne, hbeq]
  rfl

/-- The behaviour holds a branch for a number of seconds. -/
def Builtin.isWait : Builtin → Bool
  | .wait _ => true
  | _ => false

/-- A wait stays a wait, and nothing else becomes one. -/
theorem keepsKind_isWait : KeepsKind Builtin.isWait where
  assign _ b := by cases b <;> rfl
  run _ _ b := by cases b <;> rfl
  skip _ _ b := by cases b <;> rfl
  choose _ _ b := by cases b <;> rfl

theorem Builtin.eq_wait_of_isWait {b : Builtin} (h : b.isWait = true) : ∃ wait, b = .wait wait := by
  cases b with
  | wait wait => exact ⟨wait, rfl⟩
  | _ => simp [isWait] at h

namespace Turn

open Playback

variable {t : Turn Builtin} {b : Branch} {node : Node Builtin} {wait : Wait}

theorem runOutcome_wait_of_arriving (t : Turn Builtin) (index : Nat) (h : 0 < wait.seconds) :
    (t.runOutcome index false (.wait wait)).running = true ∧
      (t.runOutcome index false (.wait wait)).wait = wait.seconds := by
  simp [runOutcome, Behaviour.run, Builtin.run, Wait.run, Outcome.map, context, h]

theorem runOutcome_wait_of_not_pos (t : Turn Builtin) (index : Nat) (h : ¬ 0 < wait.seconds) :
    (t.runOutcome index false (.wait wait)).running = false := by
  simp [runOutcome, Behaviour.run, Builtin.run, Wait.run, Outcome.map, context, h]

theorem runOutcome_wait_of_running (t : Turn Builtin) (index : Nat) (wait : Wait) :
    (t.runOutcome index true (.wait wait)).running = false := by
  simp [runOutcome, Behaviour.run, Builtin.run, Wait.run, Outcome.map, context]

/-- Deadlines depend on nothing that a calm turn changes. -/
theorem Calm.after_eq {β : Type} {t u : Turn β} (h : t.Calm u) (seconds : Float32) :
    u.playback.after seconds u.world = t.playback.after seconds t.world := by
  have hsettings : u.playback.settings = t.playback.settings :=
    congrArg Identity.settings h.identity
  simp only [after, inRealtime, unfreezesMenus, hsettings, h.world.clock, h.world.config]

/-- A branch that waits in a node for a number of seconds from now on. -/
def held {β : Type} (t : Turn β) (index : Nat) (seconds : Float32) : Branch where
  index := index
  step := .poll
  origin := some index
  wake := t.playback.after seconds t.world

theorem suspend_ran_eq {β : Type} [Behaviour β] (t : Turn β) (index : Nat) (running : Bool) (b : β)
    {seconds : Float32} (h : 0 < seconds) :
    (t.ran index running b).suspend index seconds =
      (t.ran index running b).defer (t.held index seconds) := by
  rw [suspend_eq, nextPoll, if_pos h, ran, (t.calm_called ..).after_eq]
  rfl

/-- A branch arrives at a node that runs, as a behaviour with the values of its parameters. -/
structure Arrives {β : Type} [Behaviour β] (t : Turn β) (b : Branch) (behaviour : β) : Prop where
  notSkipping : t.playback.skipping = false
  visits : b.step = .visit
  runs : ∃ node b₀, t.playback.nodes[b.index]? = some node ∧ node.enabled = true ∧
    node.behaviour = some b₀ ∧ t.assigned b₀ = behaviour

/-- Which branches are ready does not matter. -/
theorem Arrives.of_ready {β : Type} [Behaviour β] {t : Turn β} {b : Branch} {behaviour : β}
    (h : t.Arrives b behaviour) (ready : List Branch) :
    ({ t with ready } : Turn β).Arrives b behaviour :=
  ⟨h.notSkipping, h.visits, h.runs⟩

/-- A branch that arrives at a wait waits until its deadline. -/
theorem Arrives.advance_eq (ha : t.Arrives b (.wait wait)) (h : 0 < wait.seconds) :
    t.advance b = (t.ran b.index false (.wait wait)).defer (t.held b.index wait.seconds) := by
  obtain ⟨hs, hb, node, b₀, hn, he, hb₀, hassigned⟩ := ha
  obtain ⟨hrunning, hseconds⟩ := t.runOutcome_wait_of_arriving b.index h
  have hhop := hop_of_not_skipping hs
  have hhop₁ : t.hop.1 = t := congrArg Prod.fst hhop
  have hhop₂ : t.hop.2 = true := congrArg Prod.snd hhop
  have hwaits : ((t.runOutcome b.index false (.wait wait)).running &&
      (t.runOutcome b.index false (.wait wait)).wait != 0) = true := by
    rw [hrunning, hseconds, bne_zero_of_pos h]
    rfl
  unfold advance
  rw [hb]
  dsimp only
  rw [visit_of_runnable hhop₂ (by rw [hhop₁]; exact hn) he hb₀, hhop₁, enter_of_playing hs,
    hassigned]
  dsimp only
  rw [if_pos hwaits, hseconds]
  exact t.suspend_ran_eq b.index false _ h

theorem Arrives.waits (ha : t.Arrives b (.wait wait)) (h : 0 < wait.seconds) :
    (t.advance b).playback.phase = t.playback.phase ∧ (t.advance b).playback.skipping = false ∧
      t.held b.index wait.seconds ∈ (t.advance b).playback.pending := by
  rw [ha.advance_eq h]
  exact ⟨rfl, ha.notSkipping, List.mem_append_right _ (List.mem_singleton_self _)⟩

/-- The branch stops there and waits. -/
theorem Arrives.stop?_eq (ha : t.Arrives b (.wait wait)) (h : 0 < wait.seconds) :
    t.stop? b = some (b.index, true) := by
  obtain ⟨node, b₀, hn, he, hb₀, -⟩ := ha.runs
  have hrunnable : node.isRunnable = true := by simp [Node.isRunnable, he, hb₀]
  have hpending : (t.advance b).playback.pending = t.playback.pending ++ [_] :=
    congrArg (fun u : Turn Builtin => u.playback.pending) (ha.advance_eq h)
  rw [stop?_of_pending hn (fun _ => hrunnable) hpending]
  rfl

/-- The node is a wait. -/
theorem Arrives.kinds_eq (ha : t.Arrives b (.wait wait)) :
    (t.playback.kinds Builtin.isWait)[b.index]? = some (some true) := by
  obtain ⟨node, b₀, hn, -, hb₀, hassigned⟩ := ha.runs
  have hkind : b₀.isWait = true := by
    rw [← kind_assigned keepsKind_isWait t b₀, hassigned]
    rfl
  rw [kinds, List.getElem?_map, hn, Option.map_some, hb₀, Option.map_some, hkind]

/-- A branch that goes on with a wait whose node is marked as running leaves the node. -/
theorem advance_of_polling_running (hb : b.step = .poll)
    (hn : t.playback.nodes[b.index]? = some node) (hw : node.behaviour = some (.wait wait))
    (hr : node.running = true) :
    t.advance b = (t.ran b.index true (.wait wait)).finish b.index := by
  unfold advance
  rw [hb]
  dsimp only
  rw [poll_of_some hn hw, hr]
  dsimp only
  rw [if_neg (by rw [runOutcome_wait_of_running]; exact Bool.false_ne_true)]
  rfl

/-- A branch that goes on with a wait whose node is not marked as running is treated as if it had
arrived there. -/
theorem advance_of_polling_not_running (hb : b.step = .poll)
    (hn : t.playback.nodes[b.index]? = some node) (hw : node.behaviour = some (.wait wait))
    (hr : node.running = false) :
    t.advance b =
      if 0 < wait.seconds then
        (t.ran b.index false (.wait wait)).defer (t.held b.index wait.seconds)
      else (t.ran b.index false (.wait wait)).finish b.index := by
  unfold advance
  rw [hb]
  dsimp only
  rw [poll_of_some hn hw, hr]
  dsimp only
  by_cases hpos : 0 < wait.seconds
  · obtain ⟨hrunning, hseconds⟩ := t.runOutcome_wait_of_arriving b.index hpos
    rw [if_pos hpos, if_pos hrunning, hseconds]
    exact t.suspend_ran_eq b.index false _ hpos
  · rw [if_neg hpos, if_neg (by rw [t.runOutcome_wait_of_not_pos b.index hpos]; simp)]
    rfl

end Turn

namespace Playback

open Turn

/-! ### Waiting for a deadline -/

section

variable {β : Type} [Behaviour β]

/-- A call that leaves a branch waiting: it asks for a pause, or updates before the branch is due or
while a scene is being loaded. That must not be a scene change which kills the playback. -/
def Spares (c : Branch) (p : Playback β) (w : World β) : Operation → Prop
  | .pause => True
  | .update => (c.wake.isDue w.clock = false ∨ w.sceneLoading = true) ∧
      (w.sceneLoading = true → (p.settings.survivesSceneChange && !p.isSkippable) = false)
  | _ => False

theorem count_pausing {p : Playback β} {c : Branch} (hc : c.step = .poll) :
    p.pausing.pending.count c = p.pending.count c := by
  refine List.count_filter ?_
  simp [resumePoint?, hc]

/-- A call that spares a branch leaves it where it is, and the playback running. -/
theorem Stands.spared_beginning {p : Playback β} {w : World β} (h : Stands p w)
    (hrun : p.phase = .running) {c : Branch} (hc : c ∈ p.pending) (hpoll : c.step = .poll)
    {op : Operation} (hop : Spares c p w op) :
    (p.beginning w op).playback.phase = .running ∧ (p.beginning w op).playback.skipping = false ∧
      p.pending.count c ≤ (p.beginning w op).playback.pending.count c := by
  have hskip := h.sound.notSkipping
  cases op with
  | pause =>
    have hpausing : p.pausing.pending ≠ [] := by
      exact List.ne_nil_of_mem (mem_of_count_le hc (Nat.le_of_eq (count_pausing hpoll).symm))
    have hpause : p.beginning w .pause = .still (p.pausing, w) := by
      rw [beginning, pause_of_playing w hrun hskip, if_neg hpausing]
    rw [hpause]
    exact ⟨hrun, hskip, Nat.le_of_eq (count_pausing hpoll).symm⟩
  | update =>
    obtain ⟨hspare, houtlast⟩ := hop
    have hidle : ¬ (p.phase ≠ .running ∨ p.pending = []) := by
      simp [hrun, List.ne_nil_of_mem hc]
    have hlive : ¬ w.registry.isLive p.id = false := by simp [h.live hrun]
    rw [beginning, updateBeginning, if_neg hidle, if_neg hlive]
    have hwaiting : c.wake.isDue w.clock = false →
        (p.waiting w).pending.count c = p.pending.count c := fun hdue =>
      List.count_filter (by simp [hdue])
    split_ifs with hdue hscene hends
    · -- Nothing is due.
      have hnone := List.filter_eq_nil_iff.mp hdue c hc
      exact ⟨hrun, hskip, Nat.le_of_eq (hwaiting (by simpa using hnone)).symm⟩
    · simp [houtlast hscene] at hends
    · -- What is due goes on waiting behind the others.
      have hperm := List.perm_append_comm.trans (p.perm_due_append_waiting w)
      exact ⟨hrun, hskip, Nat.le_of_eq (hperm.count_eq c).symm⟩
    · exact ⟨hrun, hskip, Nat.le_of_eq (hwaiting (hspare.resolve_right hscene)).symm⟩
  | _ => exact False.elim hop

/-- An update with branches that are due begins with these. -/
theorem Stands.updateBeginning_eq {p : Playback β} {w : World β} (h : Stands p w)
    (hrun : p.phase = .running) (hs : w.sceneLoading = false) (hdue : p.due w ≠ []) :
    p.beginning w .update = ⟨p.waiting w, w, p.due w⟩ := by
  have hidle : ¬ (p.phase ≠ .running ∨ p.pending = []) := by
    simp [hrun, h.sound.waits hrun]
  rw [beginning, updateBeginning, if_neg hidle, if_neg (by simp [h.live hrun]), if_neg hdue,
    if_neg (by simp [hs])]

/-- As long as it is spared, a branch goes on waiting. -/
theorem Course.spared {c : Branch} {s s' : Playback β × World β} {stops : List (Nat × Bool)}
    (h : Course (Spares c) s stops s') (hs : Reached s.1 s.2) (hrun : s.1.phase = .running)
    (hc : c ∈ s.1.pending) (hpoll : c.step = .poll) :
    s'.1.phase = .running ∧ s.1.pending.count c ≤ s'.1.pending.count c := by
  induction h with
  | refl => exact ⟨hrun, Nat.le_refl _⟩
  | @perform stops more p w op u h hop hu hover ih =>
    obtain ⟨hrun', hcount⟩ := ih
    have hstands := (h.reached hs).stands
    have hmem : c ∈ p.pending := mem_of_count_le hc hcount
    obtain ⟨hbegins, hskip, hle⟩ := hstands.spared_beginning hrun' hmem hpoll hop
    have hcount' := Nat.le_trans hcount hle
    obtain ⟨hgoes, -, hmore⟩ := hu.count_le hbegins hskip (mem_of_count_le hc hcount')
    exact ⟨hgoes, Nat.le_trans hcount' hmore⟩
  | elsewhere _ _ ih => exact ih

end

/-! ### The end of a wait -/

/-- The branch that is taken up comes to the end of its wait. It leaves the node, unless the last
branch to stop there since then has left it; in that case it is taken for one that arrives and waits
anew. -/
def EndsWait (t : Turn Builtin) (since : List (Nat × Bool)) (c : Branch) : Prop :=
  ∃ wait : Wait, t.playback.nodes[c.index]?.bind (·.behaviour) = some (.wait wait) ∧
    (since.lookup c.index ≠ some false →
      t.advance c = (t.ran c.index true (.wait wait)).finish c.index) ∧
    (since.lookup c.index = some false →
      t.advance c =
        if 0 < wait.seconds then
          (t.ran c.index false (.wait wait)).defer (t.held c.index wait.seconds)
        else (t.ran c.index false (.wait wait)).finish c.index)

theorem Moment.endsWait {t : Turn Builtin} {since stops : List (Nat × Bool)} {c : Branch}
    {rest : List Branch} (h : Moment (since ++ (c.index, true) :: stops) t)
    (hrun : t.playback.phase = .running) (hready : t.ready = c :: rest) (hpoll : c.step = .poll)
    (hwait : (t.playback.kinds Builtin.isWait)[c.index]? = some (some true)) :
    EndsWait { t with ready := rest } since c := by
  rw [kinds, List.getElem?_map, Option.map_eq_some_iff] at hwait
  obtain ⟨node, hn, hb⟩ := hwait
  obtain ⟨b, hb, hkind⟩ := Option.map_eq_some_iff.mp hb
  obtain ⟨wait, rfl⟩ := Builtin.eq_wait_of_isWait hkind
  -- The mark of the node is what the last stop has left behind.
  have hpolled : IsPolled t.inFlight c.index := ⟨c, by simp [inFlight, hready], hpoll, rfl⟩
  have hmark : (since.lookup c.index).or (some true) = some node.running := by
    have hrecorded := h.recorded hrun c.index hpolled
    rw [List.lookup_append, List.lookup_cons, beq_self_eq_true, isRunningAt, hn] at hrecorded
    exact hrecorded
  refine ⟨wait, ?_, fun hstayed => ?_, fun hleft => ?_⟩
  · change t.playback.nodes[c.index]?.bind _ = _
    rw [hn]
    exact hb
  · have hrunning : node.running = true := by
      cases hlast : since.lookup c.index with
      | none =>
        rw [hlast] at hmark
        exact (Option.some.inj hmark).symm
      | some stays =>
        rw [hlast] at hmark hstayed
        have hstays : stays = true := by simpa using hstayed
        exact (Option.some.inj hmark).symm.trans hstays
    exact advance_of_polling_running (t := { t with ready := rest }) hpoll hn hb hrunning
  · have hrunning : node.running = false := by
      rw [hleft] at hmark
      exact (Option.some.inj hmark).symm
    exact advance_of_polling_not_running (t := { t with ready := rest }) hpoll hn hb hrunning

/-- At any moment in the life of any playback, a branch that goes on with a node finds it marked as
running exactly if the last branch that stopped there has stayed.

A branch that arrives at a wait is kept until its deadline: as long as calls spare it, it goes on
waiting, and the first update that finds it due takes it up, as often as it is due. Then it leaves
the node, unless the last branch that stopped there since has left it. -/
theorem polls_find_last_stop (index : Nat) :
    (∀ {β : Type} [Behaviour β] {stops : List (Nat × Bool)} {t : Turn β}, Moment stops t →
      t.playback.phase = .running → IsPolled t.inFlight index →
        stops.lookup index = some (t.playback.isRunningAt index)) ∧
    ∀ {stops : List (Nat × Bool)} {t : Turn Builtin} {b : Branch} {rest : List Branch}
      {wait : Wait}, Moment stops t → t.playback.phase = .running → t.ready = b :: rest →
      b.index = index → t.Arrives b (.wait wait) → 0 < wait.seconds →
      let c := t.held index wait.seconds
      let u : Turn Builtin := ({ t with ready := rest } : Turn Builtin).advance b
      c ∈ u.playback.pending ∧
      ∀ {since : List (Nat × Bool)} {v : Turn Builtin}, u.Works since v →
        (v.ready = [] ∨ v.playback.phase ≠ .running) →
      ∀ {later : List (Nat × Bool)} {s : Playback Builtin × World Builtin},
        Course (Spares c) v.view later s →
        s.1.phase = .running ∧ u.playback.pending.count c ≤ s.1.pending.count c ∧
        (c.wake.isDue s.2.clock = true → s.2.sceneLoading = false →
          (s.1.due s.2).count c = s.1.pending.count c ∧
          ∀ before after, s.1.due s.2 = before ++ c :: after →
            ∃ latest x more, (s.1.beginning s.2 .update).Works latest x ∧
              x.playback.phase = .running ∧ x.ready = c :: (after ++ more)) ∧
        ∀ {latest : List (Nat × Bool)} {x : Turn Builtin} {rest : List Branch},
          (s.1.beginning s.2 .update).Works latest x → x.playback.phase = .running →
          x.ready = c :: rest →
          EndsWait { x with ready := rest } (latest ++ (later ++ since)) c := by
  refine ⟨fun h hrun hpolled => h.recorded hrun index hpolled, ?_⟩
  intro stops t b rest wait hmoment hrun hready hindex harrives hpos c u
  subst hindex
  obtain @⟨p₀, p, w₀, w, stops, more, t, hnew, hcourse, op, ht⟩ := hmoment
  -- The branch stops at the wait.
  have harrives' := harrives.of_ready rest
  obtain ⟨hphase, hskipping, hmem⟩ := harrives'.waits hpos
  have hstops : (p.beginning w op).Works ((b.index, true) :: more) u := by
    have hnext := ht.next hrun hready
    rw [harrives'.stop?_eq hpos] at hnext
    exact hnext
  refine ⟨hmem, fun {since v} hv hover {later s} hs => ?_⟩
  -- It waits while the turn goes on, and as long as it is spared.
  obtain ⟨hrunning, -, hcount⟩ := hv.count_le (hphase.trans hrun) hskipping hmem
  have hend : Course AnyCall (p₀, w₀) (since ++ (b.index, true) :: more ++ stops) v.view :=
    hcourse.perform trivial (hstops.trans hv) hover
  have hmem' : c ∈ v.playback.pending := mem_of_count_le hmem hcount
  obtain ⟨hwaits, hmore⟩ := hs.spared (hend.reached (.new hnew w₀)) hrunning hmem' rfl
  have hlife := hend.trans hs
  have hstands := (hlife.reached (.new hnew w₀)).stands
  refine ⟨hwaits, Nat.le_trans hcount hmore, fun hdue hscene => ?_, ?_⟩
  · -- The update that finds it due takes it up.
    refine ⟨List.count_filter hdue, fun before after hsplit => ?_⟩
    obtain ⟨latest, x, others, hx, hxrun, -, hxready⟩ := exists_works_of_mem_ready
      (t := ⟨s.1.waiting s.2, s.2, s.1.due s.2⟩) hwaits hstands.sound.notSkipping hsplit
    rw [← hstands.updateBeginning_eq hwaits hscene (by simp [hsplit])] at hx
    exact ⟨latest, x, others, hx, hxrun, hxready⟩
  · intro latest x rest' hx hxrun hxready
    have hkinds : x.playback.kinds Builtin.isWait = t.playback.kinds Builtin.isWait := by
      rw [hx.kinds_eq keepsKind_isWait, kinds_beginning, hs.kinds_eq keepsKind_isWait]
      exact (hv.kinds_eq keepsKind_isWait).trans (kinds_advance keepsKind_isWait _ b)
    have hlatest :
        Moment ((latest ++ (later ++ since)) ++ (b.index, true) :: (more ++ stops)) x := by
      have hduring := Moment.during hnew hlife .update hx
      simp only [List.append_assoc, List.cons_append] at hduring ⊢
      exact hduring
    exact Moment.endsWait (c := c) hlatest hxrun hxready rfl (hkinds ▸ harrives.kinds_eq)

/-- Two branches that wait in one node, the second one from a second later on. -/
def joined : Playback Builtin where
  id := 0
  graph := "join"
  nodes :=
    [{ id := "", kind := "parallel", title := "", enabled := true, endings := [.goto 1, .goto 2],
       behaviour := some (.parallel ⟨2⟩) },
     { id := "", kind := "wait", title := "", enabled := true, endings := [.stop],
       behaviour := some (.wait ⟨2, none⟩) },
     { id := "", kind := "wait", title := "", enabled := true, endings := [.goto 1],
       behaviour := some (.wait ⟨1, none⟩) }]
  parameters := ⟨[]⟩
  settings := {}

theorem isNew_joined : joined.IsNew := ⟨rfl, rfl, rfl, rfl, by simp [joined]⟩

/-- One branch has been taken to that node. -/
def alone : Turn Builtin :=
  ({ joined.beginning {} (.play 1 false) with ready := [] } : Turn Builtin).advance
    { index := 1, step := .visit }

/-- The first branch has left the node when the second one is due, whose poll is taken for an
arrival. A branch that has the node to itself leaves it in time. -/
theorem polls_find_last_stop_joined :
    (∃ stops, ∃ t : Turn Builtin, Moment stops t ∧ t.playback.phase = .running ∧
      (t.ready.map fun b => (b.index, b.step)) = [(1, .poll)] ∧
      t.playback.isRunningAt 1 = false ∧ stops.lookup 1 = some (t.playback.isRunningAt 1)) ∧
    ∃ c, ∃ s : Playback Builtin × World Builtin,
      c.wake = .moment 2 false ∧ (joined.beginning {} (.play 1 false)).Works [(1, true)] alone ∧
      c ∈ alone.playback.pending ∧ Course (Spares c) alone.view [] s ∧
      (s.1.beginning s.2 .update).ready = [c] ∧
      EndsWait { s.1.beginning s.2 .update with ready := [] } [] c := by
  constructor
  · have hruns : ((joined.perform 5 {} (.play 0 false)).bind fun r =>
        (r.1.perform 5 r.2.later .update).bind fun u =>
          (u.1.perform 5 u.2.later .update).map fun v =>
            let t := v.1.beginning v.2.later .update
            (t.playback.phase, t.ready.map fun b => (b.index, b.step),
              t.playback.isRunningAt 1)) =
        some (.running, [(1, .poll)], false) := by
      decide +kernel
    simp only [Option.bind_eq_some_iff, Option.map_eq_some_iff, Prod.mk.injEq] at hruns
    obtain ⟨r, hr, u, hu, v, hv, hrun, hready, hmark⟩ := hruns
    have hbegun : Course AnyCall (joined, {}) [] (joined, {}) := .refl
    obtain ⟨first, hfirst⟩ := hbegun.exists_perform trivial hr
    have hlater : Course AnyCall (joined, {}) _ (r.1, r.2.later) := hfirst.elsewhere rfl
    obtain ⟨second, hsecond⟩ := hlater.exists_perform trivial hu
    have hlater' : Course AnyCall (joined, {}) _ (u.1, u.2.later) := hsecond.elsewhere rfl
    obtain ⟨third, hthird⟩ := hlater'.exists_perform trivial hv
    have hlater'' : Course AnyCall (joined, {}) _ (v.1, v.2.later) := hthird.elsewhere rfl
    have hmoment := Moment.during isNew_joined hlater'' .update .refl
    have hpolled : IsPolled (v.1.beginning v.2.later .update).inFlight 1 := by
      obtain ⟨b, hb, hindex⟩ := List.mem_map.mp (hready ▸ List.mem_singleton_self (1, Step.poll))
      rw [Prod.mk.injEq] at hindex
      exact ⟨b, List.mem_append_left _ hb, hindex.2, hindex.1⟩
    exact ⟨_, _, hmoment, hrun, hready, hmark, (polls_find_last_stop 1).1 hmoment hrun hpolled⟩
  · have hmoment : Moment [] (joined.beginning {} (.play 1 false)) :=
      .during isNew_joined .refl (.play 1 false) .refl
    have harrives : (joined.beginning {} (.play 1 false)).Arrives { index := 1, step := .visit }
        (.wait ⟨2, none⟩) := ⟨rfl, rfl, _, _, rfl, rfl, rfl, rfl⟩
    have hpos : 0 < (⟨2, none⟩ : Wait).seconds := by decide +kernel
    have hstop := (harrives.of_ready []).stop?_eq hpos
    have hstops : (joined.beginning {} (.play 1 false)).Works [(1, true)] alone := by
      have hnext : (joined.beginning {} (.play 1 false)).Works _ alone := Works.refl.next rfl rfl
      rw [hstop] at hnext
      exact hnext
    obtain ⟨hmem, hkept⟩ := (polls_find_last_stop 1).2 hmoment rfl rfl rfl harrives hpos
    have hspared : Course (Spares ((joined.beginning {} (.play 1 false)).held 1 2)) alone.view []
        (alone.playback, alone.world.later.later) := .elsewhere .refl rfl
    obtain ⟨-, -, -, hends⟩ := hkept .refl (Or.inl (by decide +kernel)) hspared
    have hready : (alone.playback.beginning alone.world.later.later .update).ready =
        [(joined.beginning {} (.play 1 false)).held 1 2] := by
      decide +kernel
    exact ⟨_, _, by decide +kernel, hstops, hmem, hspared, hready,
      hends .refl (by decide +kernel) hready⟩

end Playback

end Cutscene
