import Cutscene.Proofs.Playback.Conservation
import Mathlib.Data.List.ReduceOption

/-!
# A pause that is asked for again

Asking again before a pause has taken effect empties the list of resume points. The branches that
had left them are not under way any more, so they are lost: `repeated_pause_forgets` compares a
pause that is asked for once with one that is asked for again and again, and says that the
difference is what the further requests have found and forgotten. Without a resume point at the time
of a request nothing is lost.
-/

namespace Cutscene.Playback

variable {β : Type}

/-! ### Branches that no request turns into resume points -/

/-- Which nodes take all their outputs at once. -/
def fans [Behaviour β] (p : Playback β) : List Bool := p.nodes.map (·.fansOut)

/-- Every branch that waits has to be waited for. -/
def Unkept [Behaviour β] (p : Playback β) : Prop := ∀ b ∈ p.pending, p.resumePoint? b = none

section

variable [Behaviour β]

/-- Whether a branch leaves a resume point only depends on which nodes take all their outputs. -/
theorem resumePoint?_congr {p q : Playback β} (h : q.fans = p.fans) (b : Branch) :
    q.resumePoint? b = p.resumePoint? b := by
  unfold resumePoint?
  cases b.step <;> cases b.origin <;> try rfl
  rename_i origin
  have hnode : (q.nodes[origin]?).map (·.fansOut) = (p.nodes[origin]?).map (·.fansOut) := by
    rw [← List.getElem?_map, ← List.getElem?_map]
    exact congrArg (·[origin]?) h
  cases hq : q.nodes[origin]? <;> cases hp : p.nodes[origin]? <;>
    simp only [hq, hp, Option.map_some, Option.map_none, Option.some.injEq, reduceCtorEq] at hnode ⊢
  rw [hnode]

theorem Unkept.congr {p q : Playback β} (h : p.Unkept) (hq : q.fans = p.fans)
    (hpending : ∀ b ∈ q.pending, b ∈ p.pending ∨ b.step = .poll) : q.Unkept := by
  intro b hb
  rcases hpending b hb with hold | hpoll
  · rw [resumePoint?_congr hq]
    exact h b hold
  · unfold resumePoint?
    rw [hpoll]

/-- A request leaves no branch that the next one would turn into a resume point. -/
theorem unkept_pausing (p : Playback β) : p.pausing.Unkept := by
  intro b hb
  have hnone := (List.mem_filter.mp hb).2
  exact Option.isNone_iff_eq_none.mp hnone

end

end Playback

namespace Turn

open Playback

variable {β : Type} [Behaviour β]

/-- How a turn goes on under a pause: while it runs, no branch that waits leaves a resume point
before it is done. -/
def HoldsOut (t : Turn β) : Prop :=
  t.playback.phase = .running →
    t.playback.skipping = false ∧ t.playback.pauseRequested = true ∧ t.playback.Unkept

theorem HoldsOut.congr {t u : Turn β} (h : t.HoldsOut) (hc : t.Calm u)
    (hfans : u.playback.fans = t.playback.fans)
    (hpending : ∀ b ∈ u.playback.pending, b ∈ t.playback.pending ∨ b.step = .poll) :
    u.HoldsOut := by
  intro hrun
  obtain ⟨hs, hp, hunkept⟩ := h (hc.phase.symm.trans hrun)
  exact ⟨hc.skipping.trans hs, hc.pauseRequested.trans hp, hunkept.congr hfans hpending⟩

theorem holdsOut_settle {t : Turn β} (h : t.HoldsOut) : t.settle.HoldsOut := by
  unfold settle
  split_ifs
  · exact h
  · exact fun hrun => by simp [endPause] at hrun
  · exact fun hrun => by simp [endRun] at hrun

theorem holdsOut_finish {t : Turn β} {index : Nat} {node : Node β} (h : t.HoldsOut)
    (hp : t.playback.pauseRequested = true) (hn : t.playback.nodes[index]? = some node) :
    (t.finish index).HoldsOut := by
  rw [finish_of_pauseRequested hn hp]
  split_ifs
  · exact fun hrun => by simp [endPause] at hrun
  · exact h.congr ((t.calm_rest index).trans (calm_keep _ index))
      (map_modifyNode (·.fansOut) fun _ _ => rfl)
      fun b hb => Or.inl hb

section

variable (hassign : ∀ parameters (b : β), Behaviour.fansOut (Behaviour.assign parameters b) =
    Behaviour.fansOut b)
  (hrun : ∀ ctx vars (b : β), Behaviour.fansOut (Behaviour.run ctx vars b).behaviour =
    Behaviour.fansOut b)

include hassign hrun

theorem fans_ran {t : Turn β} {b : Branch} {node : Node β} {running : Bool} {behaviour : β}
    (hn : t.playback.nodes[b.index]? = some node) (hr : t.Runs b node running behaviour) :
    (t.ran b.index running behaviour).playback.fans = t.playback.fans := by
  refine map_modifyNode (·.fansOut) fun n hn' => ?_
  obtain rfl := Option.some.inj (hn.symm.trans hn')
  have hcall : Behaviour.fansOut (t.runOutcome b.index running behaviour).behaviour =
      Behaviour.fansOut behaviour := hrun _ _ _
  cases hr with
  -- The values of bound parameters come before the call.
  | arrives _ _ hb =>
    have hassigned : ∀ b₀ : β, Behaviour.fansOut (t.assigned b₀) = Behaviour.fansOut b₀ := by
      intro b₀
      unfold assigned
      split_ifs
      · rfl
      · exact hassign _ _
    simp only [Node.fansOut, hb]
    exact hcall.trans (hassigned _)
  | continues _ hb =>
    simp only [Node.fansOut, hb]
    exact hcall

/-- A branch that is taken up under a pause waits to go on with its node, if it waits. -/
theorem holdsOut_advance {t : Turn β} (h : t.HoldsOut) (hp : t.playback.phase = .running)
    (b : Branch) : (t.advance b).HoldsOut := by
  obtain ⟨hs, hpause, -⟩ := h hp
  have htaken := taken_advance hs b
  generalize t.advance b = u at htaken ⊢
  cases htaken with
  | lost => exact holdsOut_settle h
  -- A node that is passed over leads to the next one and stays what it was.
  | passed => exact h.congr (calm_push _ _) rfl fun b hb => Or.inl hb
  | @suspended node running behaviour hn hr ho =>
    have hcalm := (t.calm_called _ b.index behaviour _ _).trans (calm_suspend (t.ran b.index running
      behaviour) b.index (t.runOutcome b.index running behaviour).wait)
    refine h.congr hcalm (fans_ran hassign hrun hn hr) fun c hc => ?_
    -- The branch that waits for the node is to poll it.
    rcases List.mem_append.mp hc with hold | hnew
    · exact Or.inl hold
    · exact Or.inr (by rw [List.mem_singleton.mp hnew])
  | @completed node running behaviour hn hr ho =>
    have hran : (t.ran b.index running behaviour).HoldsOut :=
      h.congr (t.calm_called _ _ _ _ _) (fans_ran hassign hrun hn hr) fun c hc => Or.inl hc
    exact holdsOut_finish hran hpause (getElem?_ran hn _ _)
  | resolved hn hb => exact holdsOut_finish h hpause hn

theorem holdsOut_run {fuel : Nat} {t : Turn β} {r : Playback β × World β} (h : t.HoldsOut)
    (hr : t.run fuel = some r) : r.1.phase = .running → r.1.Unkept := by
  obtain ⟨u, hu, rfl, -⟩ := run_induction (I := HoldsOut)
    (fun u b rest hu hp _ => holdsOut_advance hassign hrun (t := { u with ready := rest }) hu hp b)
    h hr
  exact fun hp => (hu hp).2.2

end

end Turn

namespace Playback

variable {β : Type} [Behaviour β]

/-! ### One request after the other -/

/-- What updates make of a playback with further requests for a pause in between, and the resume
points that those requests have found and forgotten. -/
inductive UpdatedAsking (s : Playback β × World β) : List Nat → Playback β × World β → Prop
  | refl : UpdatedAsking s [] s
  /-- Anything happens to the world but to the record of the playback. -/
  | elsewhere {forgotten : List Nat} {p : Playback β} {w : World β}
    (h : UpdatedAsking s forgotten (p, w)) {w' : World β}
    (hw : w'.registry.record? p.id = w.registry.record? p.id) : UpdatedAsking s forgotten (p, w')
  | update {forgotten : List Nat} {p : Playback β} {w : World β}
    (h : UpdatedAsking s forgotten (p, w)) (hs : w.sceneLoading = false) {fuel : Nat}
    {r : Playback β × World β} (hr : p.update fuel w = some r) : UpdatedAsking s forgotten r
  /-- A request while the pause has not taken effect yet. -/
  | pause {forgotten : List Nat} {p : Playback β} {w : World β}
    (h : UpdatedAsking s forgotten (p, w)) (hrun : p.phase = .running) :
    UpdatedAsking s (forgotten ++ p.resumePoints) (p.pause w)

/-- What has become of the branches after a number of requests: what is missing in the account are
the resume points that were forgotten. -/
structure Owes (places : List (Option Nat)) (forgotten : List Nat) (s : Playback β × World β) :
    Prop where
  reached : Reached s.1 s.2
  unkept : s.1.phase = .running → s.1.Unkept
  accounts : ∃ left kinds, ComesToPause left s kinds ∧ (forgotten.map some ++ left).Perm places

omit [Behaviour β] in
theorem reduceOption_map_some (points : List Nat) :
    (points.map some).reduceOption = points := by
  induction points with
  | nil => rfl
  | cons point rest ih => rw [List.map_cons, List.reduceOption_cons_of_some, ih]

omit [Behaviour β] in
/-- The resume points of a pause that has taken effect are the places of its branches. -/
theorem ComesToPause.resumePoints_perm {places : List (Option Nat)} {s : Playback β × World β}
    {kinds : List Event.Kind} (h : ComesToPause places s kinds) (hstop : s.1.phase ≠ .running) :
    s.1.resumePoints.Perm places.reduceOption := by
  cases h with
  -- A run that has stopped has come to its pause or to its end.
  | underWay h => exact absurd h.running hstop
  | @paused p w _ _ _ haccounts _ =>
    obtain ⟨past, hpast⟩ := haccounts
    have hperm := hpast.filterMap fun place => place
    change (List.reduceOption _).Perm places.reduceOption at hperm
    rw [List.reduceOption_append, List.reduceOption_replicate_none, List.append_nil,
      reduceOption_map_some] at hperm
    exact hperm
  | ended _ _ hpoints hpast _ =>
    have hnil : places.reduceOption = [] := List.filterMap_eq_nil_iff.mpr hpast
    rw [hpoints, hnil]

/-- A further request gives up the resume points there are, and nothing else. -/
theorem Owes.pause {places : List (Option Nat)} {forgotten : List Nat} {p : Playback β}
    {w : World β} (h : Owes places forgotten (p, w)) (hrun : p.phase = .running) :
    Owes places (forgotten ++ p.resumePoints) (p.pause w) := by
  obtain ⟨left, kinds, hcomes, hperm⟩ := h.accounts
  have hsound := sound_of_reached h.reached
  -- While a pause is asked for, only branches that are not recorded are left.
  have hnone : ∀ b ∈ p.pending, p.resumePoint? b = none := h.unkept hrun
  have hpoints : p.pausing.resumePoints = [] := List.filterMap_eq_nil_iff.mpr hnone
  have hpending : p.pausing.pending = p.pending :=
    List.filter_eq_self.mpr fun b hb => by rw [hnone b hb]; rfl
  -- There are branches left, so the pause does not take effect yet.
  have hpause : p.pause w = (p.pausing, w) := by
    rw [pause_of_playing w hrun hsound.notSkipping, if_neg]
    rw [hpending]
    exact hsound.waits hrun
  obtain ⟨past, hpast⟩ := (hcomes.holds hrun).1.accounts
  refine ⟨h.reached.pause, ?_,
    List.replicate past none ++ p.pending.map p.finishPoint?, [], ?_, ?_⟩
  · rw [hpause]
    exact fun _ => p.unkept_pausing
  · rw [hpause]
    refine .underWay ⟨hrun, hsound.notSkipping, rfl, past, ?_⟩
    rw [hpoints, hpending]
    exact .refl _
  · -- What the first pause had recorded counts as forgotten now.
    rw [List.map_append, List.append_assoc, ← List.append_assoc (p.resumePoints.map some)]
    exact (hpast.append_left _).trans hperm

/-- Behaviours do not change whether they take all their outputs. -/
structure KeepsFans (β : Type) [Behaviour β] : Prop where
  assign : ∀ parameters (b : β),
    Behaviour.fansOut (Behaviour.assign parameters b) = Behaviour.fansOut b
  run : ∀ ctx vars (b : β),
    Behaviour.fansOut (Behaviour.run ctx vars b).behaviour = Behaviour.fansOut b

theorem Owes.update (hfans : KeepsFans β) {places : List (Option Nat)} {forgotten : List Nat}
    {p : Playback β} {w : World β} (h : Owes places forgotten (p, w)) (hs : w.sceneLoading = false)
    {fuel : Nat} {r : Playback β × World β} (hr : p.update fuel w = some r) :
    Owes places forgotten r := by
  obtain ⟨left, kinds, hcomes, hperm⟩ := h.accounts
  have hupdated : Updated (p, w) _ _ r := Updated.refl.update hs hr
  refine ⟨h.reached.updated hupdated, ?_, left, _,
    (comesToPause_of_updated h.reached hcomes hupdated).2, hperm⟩
  rcases h.reached.stands.update_cases hs hr with ⟨-, rfl⟩ | ⟨-, hrun, hturn⟩
  · exact h.unkept
  · have hholds := (hcomes.holds hrun).1
    refine Turn.holdsOut_run hfans.assign hfans.run (fun _ => ?_) hturn
    refine ⟨hholds.notSkipping, hholds.requested, (h.unkept hrun).congr rfl fun b hb => ?_⟩
    exact Or.inl (List.mem_filter.mp hb).1

theorem Owes.asking (hfans : KeepsFans β) {places : List (Option Nat)} {forgotten : List Nat}
    {s s' : Playback β × World β} (h : Owes places [] s) (hu : UpdatedAsking s forgotten s') :
    Owes places forgotten s' := by
  induction hu with
  | refl => exact h
  | elsewhere _ hw ih =>
    obtain ⟨left, kinds, hcomes, hperm⟩ := ih.accounts
    exact ⟨.elsewhere ih.reached hw, ih.unkept, left, kinds, hcomes.elsewhere hw, hperm⟩
  | update _ hs hr ih => exact ih.update hfans hs hr
  | pause _ hrun ih => exact ih.pause hrun

/-- A pause that is asked for once and a pause that is asked for again before it takes effect differ
by the resume points that the further requests forget. -/
theorem repeated_pause_forgets (hfans : KeepsFans β) {p : Playback β} {w : World β}
    (h : Reached p w) (hrun : p.phase = .running) {rounds : Nat} {log : Log β}
    {once again : Playback β × World β} {forgotten : List Nat}
    (honce : Updated (p.pause w) rounds log once) (hstop : once.1.phase ≠ .running)
    (hagain : UpdatedAsking (p.pause w) forgotten again) (hstop' : again.1.phase ≠ .running) :
    (forgotten ++ again.1.resumePoints).Perm once.1.resumePoints := by
  have hpaused : Reached (p.pause w).1 (p.pause w).2 := h.pause
  have hcomes := (comesToPause_pause h hrun).2
  have howes : Owes (p.pending.map p.pausePoint?) [] (p.pause w) := by
    -- When the pause is asked for nothing has been forgotten yet.
    refine ⟨hpaused, fun _ => ?_, _, _, hcomes, .refl _⟩
    rw [pause_of_playing w hrun (sound_of_reached h).notSkipping]
    split_ifs
    · exact p.unkept_pausing
    · exact p.unkept_pausing
  have hpoints := (comesToPause_of_updated hpaused hcomes honce).2.resumePoints_perm hstop
  obtain ⟨left, kinds, hleft, hperm⟩ := (howes.asking hfans hagain).accounts
  have hpoints' := hleft.resumePoints_perm hstop'
  -- What of the first pause is owed and what has been forgotten make up what one pause records.
  have hall := hperm.filterMap fun place => place
  change (List.reduceOption _).Perm (List.reduceOption _) at hall
  rw [List.reduceOption_append, reduceOption_map_some] at hall
  exact ((hpoints'.append_left _).trans hall).trans hpoints.symm

theorem keepsFans_builtin : KeepsFans Builtin where
  assign _ b := by cases b <;> rfl
  run _ _ b := by
    cases b <;> rfl

/-- The first wait is over when the pause is asked for again, and so its branch is lost. -/
theorem repeated_pause_forgets_forked :
    ∃ r once again, forked.play 5 {} 0 false = some r ∧
      (∃ log, Updated (r.1.pause r.2) 2 log once) ∧ once.1.resumePoints = [1, 2] ∧
      UpdatedAsking (r.1.pause r.2) [1] again ∧ again.1.resumePoints = [2] ∧
      ([1] ++ again.1.resumePoints).Perm once.1.resumePoints := by
  have hruns : ((forked.play 5 {} 0 false).bind fun r =>
      ((r.1.pause r.2).1.update 5 (r.1.pause r.2).2.later).bind fun u =>
        (u.1.update 5 u.2.later).bind fun v =>
          ((u.1.pause u.2).1.update 5 (u.1.pause u.2).2.later).map fun x =>
            ([r.1.phase, u.1.phase, v.1.phase, x.1.phase],
              [(r.1.pause r.2).2.sceneLoading, u.2.sceneLoading, (u.1.pause u.2).2.sceneLoading],
              [((r.1.pause r.2).1.due (r.1.pause r.2).2.later).length, (u.1.due u.2.later).length],
              [u.1.resumePoints, v.1.resumePoints, x.1.resumePoints])) =
      some ([.running, .running, .paused, .paused], [false, false, false], [1, 1],
        [[1], [1, 2], [2]]) := by
    decide +kernel
  simp only [Option.bind_eq_some_iff, Option.map_eq_some_iff, Prod.mk.injEq, List.cons.injEq,
    and_true] at hruns
  obtain ⟨r, hr, u, hu, v, hv, x, hx, ⟨hrun, hrun', hstop, hstop'⟩, ⟨hscene, hscene', hscene''⟩,
    ⟨hdue, hdue'⟩, hfound, honce, hagain⟩ := hruns
  have hreached : Reached r.1 r.2 := Reached.play (.new isNew_forked {}) hr
  have hfirst := Updated.refl.later hscene hu (List.ne_nil_of_length_pos (by omega))
  have hsecond := hfirst.later hscene' hv (List.ne_nil_of_length_pos (by omega))
  have hbegun : UpdatedAsking (r.1.pause r.2) [] ((r.1.pause r.2).1, (r.1.pause r.2).2.later) :=
    UpdatedAsking.refl.elsewhere rfl
  have hasked : UpdatedAsking (r.1.pause r.2) [] u := hbegun.update hscene hu
  have hlost := hasked.pause hrun'
  rw [hfound] at hlost
  have hagain' : UpdatedAsking (r.1.pause r.2) [1] ((u.1.pause u.2).1, (u.1.pause u.2).2.later) :=
    hlost.elsewhere rfl
  have hlast : UpdatedAsking (r.1.pause r.2) [1] x := hagain'.update hscene'' hx
  refine ⟨r, v, x, hr, ⟨_, hsecond⟩, honce, hlast, hagain, ?_⟩
  exact repeated_pause_forgets keepsFans_builtin hreached hrun hsecond (by simp [hstop]) hlast
    (by simp [hstop'])

end Playback

end Cutscene
