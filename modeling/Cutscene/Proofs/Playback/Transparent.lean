import Cutscene.Behaviour.Builtin
import Cutscene.Proofs.ParameterSet
import Cutscene.Proofs.Playback.Conservation
import Cutscene.Proofs.Playback.Parting

/-!
# A pause does not change what a run does

A run of one branch goes on after a pause as if there had been none, whenever the updates are
(`pause_transparent`). A pause takes effect when the node that is under way is done, before its
ending is taken. The run that was not paused takes that ending in the same turn, the paused one as
soon as it is resumed (`Awaits`); up to there they have called the same behaviours
(`Rounds.pausing`), and from there on they are level again.

A branch that waits to arrive at a node is taken back by a pause to the node that it came from,
whose ending is then taken once more. So what the pause is transparent for is the run that has been
taken back alike (`rewound`). `pause_asks_turning_again` shows that the two may differ.
-/

namespace Cutscene

variable {β : Type} [Behaviour β]

namespace Playback

variable {S : β → Prop} {p q q' : Playback β} {calls calls' more : List (Call β)}

/-! ### Until the pause takes effect -/

omit [Behaviour β] in
theorem Alone.solitary (ha : p.Alone S) (hu : p.Unresolved) {w : World β} (hdue : p.due w ≠ []) :
    (p.updateTurn w).Solitary := by
  obtain ⟨hready, hnone⟩ := due_of_single ha.single hdue
  have hflight : (p.updateTurn w).inFlight = p.pending := by
    change p.due w ++ (p.waiting w).pending = p.pending
    rw [hready, hnone, List.append_nil]
  refine ⟨?_, ?_⟩
  · rw [hflight]
    exact ha.single
  · rw [hflight]
    exact hu

/-- In its next round a playback calls certain behaviours, and then it is about to take the ending
that a paused playback will take as soon as it is resumed. -/
def Awaits (S : β → Prop) (p : Playback β) (more : List (Call β)) (q : Playback β) : Prop :=
  ∀ w, p.due w ≠ [] → ∃ (t : Turn β) (index steps : Nat), t.RestsAt q index ∧
    t.playback.Behaves S ∧ t.world.calls = w.calls ++ more ∧
    ∀ fuel, (p.updateTurn w).run (steps + fuel) = (t.finish index).run fuel

/-- A number of rounds before that. Up to then a playback calls what another one calls until it
pauses, and it is not held up. -/
structure AwaitsAfter (S : β → Prop) (p : Playback β) (m : Nat) (calls : List (Call β))
    (q : Playback β) : Prop where
  awaits : ∃ before more, calls = before ++ more ∧
    ∀ {calls' : List (Call β)} {s : Playback β}, Rounds p m calls' s →
      calls' = before ∧ Awaits S s more q
  returns : ∀ {n : Nat} {calls' : List (Call β)} {s : Playback β}, n < m → Rounds p n calls' s →
    ∀ w, s.due w ≠ [] → ∃ fuel r, (s.updateTurn w).run fuel = some r

theorem Round.sound (h : p.Round calls q) (hp : p.Sound) : q.Sound := by
  obtain ⟨hrun, hdue, hr⟩ := h
  exact Turn.sound_run ((hp.working_update hrun).sound (Or.inl hdue)) hr

theorem Rounds.sound {n : Nat} (h : Rounds p n calls q) (hp : p.Sound) : q.Sound := by
  induction h with
  | none => exact hp
  | next _ hround ih => exact hround.sound ih

/-- The round in which a pause takes effect. -/
theorem Round.awaits (hS : Secluded S) (hl : p.Level true q) (ha : p.Alone S) (hu : p.Unresolved)
    (h : q.Round calls q') (hq : q.Sound) (hpaused : q'.phase = .paused) :
    Awaits S p calls q' := by
  intro w hdue
  have hsound := h.sound hq
  obtain ⟨-, hdue', hr⟩ := h
  cases Turn.comesOut_run hS (hl.inStep ha.behaves ha.single hdue hdue') (ha.solitary hu hdue) hr
    hsound with
  -- The two have come out level, but only one of them can be paused then.
  | together _ hends => exact absurd (hends.level.phase.symm.trans hpaused) hends.level.unpaused
  | @parts t more index steps hrests hbehaves hcalls hcalls' hsteps =>
    refine ⟨t, index, steps, hrests, hbehaves, ?_, hsteps⟩
    rw [hcalls, World.since, hcalls', List.drop_left, List.nil_append]

/-- A round before the pause takes effect is the same as without the pause. -/
theorem Round.pausing (hS : Secluded S) (hl : p.Level true q) (ha : p.Alone S) (hu : p.Unresolved)
    (h : q.Round calls' q') (hq : q.Sound) (hgoes : q'.phase ≠ .paused) :
    (∀ w, p.due w ≠ [] → ∃ fuel r, (p.updateTurn w).run fuel = some r) ∧
      ∀ {calls : List (Call β)} {p' : Playback β}, p.Round calls p' →
        calls' = calls ∧ p'.Level true q' := by
  have hsound := h.sound hq
  cases h with
  | @mk w' fuel' r' _ hdue' hr' =>
    -- Whatever the world of its next round, the other playback comes out level.
    have hend : ∀ w, p.due w ≠ [] → ∃ fuel r, (p.updateTurn w).run fuel = some r ∧
        Turn.EndsInStep true S w w' [] r r' := by
      intro w hdue
      cases Turn.comesOut_run hS (hl.inStep ha.behaves ha.single hdue hdue') (ha.solitary hu hdue)
        hr' hsound with
      | together hr hends => exact ⟨_, _, hr, hends⟩
      | parts hrests => exact absurd hrests.paused hgoes
    refine ⟨fun w hdue => ?_, fun h => ?_⟩
    · obtain ⟨fuel, r, hr, -⟩ := hend w hdue
      exact ⟨fuel, r, hr⟩
    · obtain ⟨-, hdue, hr⟩ := h
      obtain ⟨fuel, r, hr₀, hends⟩ := hend _ hdue
      -- In one world there is only one round.
      obtain rfl := Turn.run_unique hr₀ hr
      obtain ⟨more, hcalls, hcalls'⟩ := hends.calls_eq
      refine ⟨?_, hends.level⟩
      rw [World.since, World.since, hcalls, hcalls', List.drop_left, List.drop_left]

/-- Several rounds before the pause takes effect are the same as without the pause. -/
theorem Rounds.pausing (hS : Secluded S) (hl : p.Level true q) (ha : p.Alone S) (hu : p.Unresolved)
    {n : Nat} (h : Rounds q n calls' q') (hq : q.Sound) (hrun : q'.phase = .running)
    {p' : Playback β} (h' : Rounds p n calls p') :
    calls' = calls ∧ p'.Level true q' := by
  induction h generalizing calls p' with
  | none =>
    cases h'
    exact ⟨rfl, hl⟩
  | next h hround ih =>
    cases h' with
    | next h' hround' =>
      obtain ⟨rfl, hlevel⟩ := ih hround.running h'
      obtain ⟨halone, hunresolved⟩ := h'.alone hS ha hu
      obtain ⟨rfl, hlevel'⟩ := (hround.pausing hS hlevel halone hunresolved (h.sound hq)
        (by simp [hrun])).2 hround'
      exact ⟨rfl, hlevel'⟩

/-! ### After the pause -/

section

variable {parameters : String}

/-- The round in which the ending is taken is what the other playback has called until it paused and
what it calls as it is resumed. -/
theorem Awaits.round (hS : Secluded S) (ha : Awaits S p more q)
    (hp : q.restored parameters = (q.parameters, [])) (h : p.Round calls p') (w₁ : World β) :
    ∃ fuel r, q.resume fuel w₁ q.start q.resumePoints parameters false = some r ∧
      p'.Level false r.1 ∧ calls = more ++ (w₁.since r.2 q.id).calls := by
  obtain ⟨-, hdue, hr⟩ := h
  obtain ⟨t, index, steps, hrests, hbehaves, hcalls, hsteps⟩ := ha _ hdue
  -- What is left of the fuel of the round is enough for taking the ending.
  have hfinish := Turn.run_mono hr (Nat.le_add_left _ steps)
  rw [hsteps] at hfinish
  obtain ⟨fuel', r', hr', hends⟩ := hrests.resume hS hbehaves hp hfinish w₁
  obtain ⟨rest, hrest, hrest'⟩ := hends.calls_eq
  rw [hrests.points]
  refine ⟨fuel', r', hr', hends.level, ?_⟩
  rw [World.since, World.since, hrest, hrest', hcalls, List.drop_left, List.append_assoc,
    List.drop_left, List.nil_append]

/-- If the playback that has paused can be resumed, the other one is not held up. -/
theorem Awaits.returns (hS : Secluded S) (ha : Awaits S p more q)
    (hp : q.restored parameters = (q.parameters, [])) {w₁ : World β} {fuel : Nat}
    {r : Playback β × World β}
    (hr : q.resume fuel w₁ q.start q.resumePoints parameters false = some r) {w : World β}
    (hdue : p.due w ≠ []) : ∃ fuel r, (p.updateTurn w).run fuel = some r := by
  obtain ⟨t, index, steps, hrests, hbehaves, -, hsteps⟩ := ha w hdue
  rw [hrests.points] at hr
  obtain ⟨fuel', r', hr'⟩ := hrests.onward hS hbehaves hp hr
  exact ⟨steps + fuel', r', (hsteps fuel').trans hr'⟩

end

/-! ### From the pause to its end -/

/-- A playback whose branches have been taken back to the nodes whose endings they come from, as far
as a pause would do so: those that wait to arrive at a node. -/
def rewound (p : Playback β) : Playback β :=
  { p with pending := p.pending.map fun b =>
      match p.resumePoint? b with
      | some origin => { index := origin, step := .resolve }
      | none => b }

theorem rewound_eq_self (h : ∀ b ∈ p.pending, p.resumePoint? b = none) : p.rewound = p := by
  have hpending : p.rewound.pending = p.pending := by
    refine (List.map_congr_left fun b hb => ?_).trans (List.map_id' p.pending)
    rw [h b hb]
  exact congrArg (fun pending => { p with pending := pending }) hpending

/-- A pause that goes on until the branch that is under way has finished. -/
theorem awaitsAfter_of_going (hS : Secluded S) (hl : p.Level true q) (ha : p.Alone S)
    (hu : p.Unresolved) (hq : q.Sound) (hrun : q.phase = .running) {k : Nat}
    (h : Rounds q k calls q') (hpaused : q'.phase = .paused) :
    ∃ m, k = m + 1 ∧ AwaitsAfter S p m calls q' := by
  cases h with
  | none => simp [hrun] at hpaused
  | @next m before more q₀ _ h hround =>
    refine ⟨m, rfl, ⟨before, more, rfl, fun h' => ?_⟩, fun hlt h' w hdue => ?_⟩
    · -- All rounds before the last one are as if there had been no pause.
      obtain ⟨rfl, hlevel⟩ := h.pausing hS hl ha hu hq hround.running h'
      obtain ⟨halone, hunresolved⟩ := h'.alone hS ha hu
      exact ⟨rfl, hround.awaits hS hlevel halone hunresolved (h.sound hq) hpaused⟩
    · rename_i n _ s
      -- In the round after the first ones the pause has not taken effect yet.
      obtain ⟨j, rfl⟩ : ∃ j, m = n + (1 + j) := ⟨m - n - 1, by omega⟩
      obtain ⟨_, _, mid, hbefore, hafter, -⟩ := h.split
      obtain ⟨_, _, next, hfirst, hrest, -⟩ := hafter.split
      have hnext := hrest.running hround.running
      obtain ⟨-, hlevel⟩ := hbefore.pausing hS hl ha hu hq hfirst.single.running h'
      obtain ⟨halone, hunresolved⟩ := h'.alone hS ha hu
      exact (hfirst.single.pausing hS hlevel halone hunresolved (hbefore.sound hq)
        (by simp [hnext])).1 w hdue

/-- A pause that takes effect at once because the branch waits to arrive at a node. -/
theorem awaits_rewound {w : World β} {b : Branch} (hone : p.pending = [b]) {index : Nat}
    (hpoint : p.resumePoint? b = some index) (hrun : p.phase = .running)
    (hunasked : p.pauseRequested = false) (hs : p.skipping = false) (hb : p.Behaves S)
    (hq : (Turn.endPause ⟨p.pausing, w, []⟩).playback.Sound) :
    Awaits S p.rewound [] (Turn.endPause ⟨p.pausing, w, []⟩).playback := by
  intro w' hdue
  have hpending : p.rewound.pending = [{ index := index, step := .resolve }] := by
    simp [rewound, hone, hpoint]
  obtain ⟨hready, hnone⟩ := due_of_single (by simp [hpending]) hdue
  have hnodes := Turn.nodes_clearBranches hq (by simp [Turn.endPause])
  have hpoints : p.pausing.resumePoints = [index] := by
    simp [pausing, hone, hpoint]
  -- The turn rests at the node that the branch is taken back to, and one step takes it up there.
  refine ⟨{ p.rewound.updateTurn w' with ready := [] }, index, 1, ⟨⟨rfl, hnodes, rfl, hrun.symm, ?_,
    hs, rfl, ?_, fun _ => hunasked, fun _ => ⟨rfl, by simp⟩⟩, hrun, rfl, hnone, rfl, hpoints⟩, hb,
    (List.append_nil _).symm, fun fuel => ?_⟩
  · change p.phase ≠ .paused
    simp [hrun]
  · exact (congrArg (List.map Branch.untimed) hnone).symm
  · rw [Nat.add_comm, Turn.run_of_ready_eq_cons (t := p.rewound.updateTurn w') hrun
      (hready.trans hpending)]
    rfl

/-- A pause that waits for a branch leaves the playback where it is. -/
theorem level_pausing (hrun : p.phase = .running) (hs : p.skipping = false)
    (hunasked : p.pauseRequested = false) (hkept : ∀ b ∈ p.pending, p.resumePoint? b = none) :
    p.Level true p.pausing := by
  have hpending : p.pausing.pending = p.pending :=
    List.filter_eq_self.mpr fun b hb => by rw [hkept b hb]; rfl
  have hpoints : p.pausing.resumePoints = [] := List.filterMap_eq_nil_iff.mpr hkept
  exact ⟨rfl, rfl, rfl, rfl, by simp [hrun], hs, hs, congrArg (List.map Branch.untimed) hpending,
    fun _ => hunasked, fun _ => ⟨rfl, fun _ => hpoints⟩⟩

/-- What a run of one branch calls until a pause has taken effect, and that it is then about to take
the ending with which the paused playback will go on. -/
theorem exists_awaitsAfter (hS : Secluded S) {w : World β} (h : Reached p w)
    (hrun : p.phase = .running) (hunasked : p.pauseRequested = false) (hone : p.pending.length = 1)
    (hb : p.Behaves S) {k : Nat} {log : Log β} {w₁ : World β}
    (hu : Updated (p.pause w) k log (q, w₁)) (hpaused : q.phase = .paused) :
    ∃ m, max k 1 = m + 1 ∧ AwaitsAfter S p.rewound m log.calls q := by
  have hsound := sound_of_reached h
  have hrounds := rounds_of_updated h.pause.stands hu
  have hsound' := sound_of_reached h.pause
  obtain ⟨b, hpending⟩ := List.length_eq_one_iff.mp hone
  rw [pause_of_playing w hrun hsound.notSkipping] at hrounds hsound'
  cases hpoint : p.resumePoint? b with
  | none =>
    -- The branch goes on under the pause.
    have hkept : ∀ b ∈ p.pending, p.resumePoint? b = none := by
      rw [hpending]
      simpa using hpoint
    rw [if_neg (by simp [pausing, hpending, hpoint])] at hrounds hsound'
    have halone : p.Alone S :=
      ⟨.refl hsound.notSkipping (by simp [hrun]) fun _ => hunasked, hb, Nat.le_of_eq hone⟩
    obtain ⟨m, rfl, hawaits⟩ := awaitsAfter_of_going hS
      (level_pausing hrun hsound.notSkipping hunasked hkept) halone (unresolved_of_reached h)
      hsound' hrun hrounds hpaused
    rw [rewound_eq_self hkept]
    exact ⟨m, Nat.max_eq_left (Nat.succ_pos m), hawaits⟩
  | some index =>
    -- The branch is taken back, and as it is the only one the pause takes effect at once.
    rw [if_pos (by simp [pausing, hpending, hpoint])] at hrounds hsound'
    generalize log.calls = calls at hrounds ⊢
    cases hrounds with
    | none =>
      refine ⟨0, rfl, ⟨[], [], rfl, fun h' => ?_⟩, fun hlt => absurd hlt (Nat.not_lt_zero _)⟩
      cases h'
      exact ⟨rfl, awaits_rewound hpending hpoint hrun hunasked hsound.notSkipping hb hsound'⟩
    | next h' hround =>
      -- A playback that has paused takes part in no round.
      have hstill := h'.running hround.running
      simp [Turn.view, Turn.endPause] at hstill

/-! ### The whole run -/

/-- Resumes a paused playback as its record has it: from its own start, after the nodes and with the
parameters that have been recorded. -/
def resumeRecorded (fuel : Nat) (q : Playback β) (w : World β) : Option (Playback β × World β) :=
  (w.registry.record? q.id).bind fun record =>
    q.resume fuel w q.start record.resumePoints record.parameters false

/-- What is to be said of a pause that has taken effect in `(q, w₁)`, `k` rounds after it was asked
for in `(p, w)`: resumed, the run goes on as it would have without the pause. -/
structure Transparent (p : Playback β) (w : World β) (k : Nat) (log : Log β) (q : Playback β)
    (w₁ : World β) : Prop where
  /-- Nothing is taken back but a branch that waits to arrive at a node. -/
  rewound : (∀ b ∈ p.pending, p.resumePoint? b = none) → p.rewound = p ∧ p.openQuestion = []
  /-- As soon as the run that was not paused has been through the round in which the ending is
  taken, the paused one can be resumed. It has then called the same behaviours, and takes the same
  course. -/
  same : ∀ {log₀ : Log β} {s : Playback β × World β}, Updated (p.rewound, w) (max k 1) log₀ s →
    (∃ fuel r, q.resumeRecorded fuel w₁ = some r) ∧
      ∀ {fuel : Nat} {r : Playback β × World β}, q.resumeRecorded fuel w₁ = some r →
        log₀.calls = (w.since (p.pause w).2 p.id ++ log ++ w₁.since r.2 q.id).calls ∧
          SameCourse s r
  /-- If it can be resumed, the run that was not paused is not held up before. -/
  returns : ∀ {fuel : Nat} {r : Playback β × World β}, q.resumeRecorded fuel w₁ = some r →
    ∀ {n : Nat} {log₀ : Log β} {s : Playback β × World β}, n < max k 1 →
      Updated (p.rewound, w) n log₀ s → ∀ w', ∃ fuel r, s.1.update fuel w' = some r
  /-- Every node that is done is asked once which output it takes, and the node that the branch has
  been taken back to once more. -/
  asked : ∀ {n : Nat} {log₀ : Log β} {s : Playback β × World β}, n ≠ 0 →
    Updated (p.rewound, w) n log₀ s →
      ∃ once, AskedOnce once ∧ log₀.calls = p.rewound.openQuestion ++ once

theorem Sound.rewound (h : p.Sound) : p.rewound.Sound where
  waits hrun hnil := h.waits hrun (List.map_eq_nil_iff.mp hnil)
  rests hstop := by
    obtain ⟨hpending, hrest⟩ := h.rests hstop
    exact ⟨List.map_eq_nil_iff.mpr hpending, hrest⟩
  notSkipping := h.notSkipping
  resumable := h.resumable
  polled index hi := by
    obtain ⟨b, hb, hstep, hindex⟩ := h.polled index hi
    -- Only branches that arrive at a node are taken back.
    have hstays : p.resumePoint? b = none := by simp [resumePoint?, hstep]
    exact ⟨b, List.mem_map.mpr ⟨b, hb, by rw [hstays]⟩, hstep, hindex⟩

theorem Stands.rewound {w : World β} (h : Stands p w) : Stands p.rewound w :=
  ⟨h.sound.rewound, h.live⟩

omit [Behaviour β] in
/-- A playback's own snapshot restores its parameters, also if there are none and it is empty. -/
theorem restored_snapshot (h : (p.parameters.items.map (·.id)).Nodup) :
    p.restored p.parameters.snapshot = (p.parameters, []) := by
  unfold restored
  split_ifs
  · rfl
  · exact ParameterSet.restore_snapshot h

theorem parameters_rounds {n : Nat} (h : Rounds p n calls q) : q.parameters = p.parameters := by
  induction h with
  | none => rfl
  | next _ hround ih =>
    obtain ⟨-, -, hr⟩ := hround
    exact (Turn.parameters_run hr).trans ih

theorem parameters_pause (p : Playback β) (w : World β) :
    (p.pause w).1.parameters = p.parameters := by
  unfold pause
  dsimp only
  split_ifs <;> rfl

/-- Asking for a pause calls no behaviour. -/
theorem calls_since_pause (p : Playback β) (w : World β) :
    (w.since (p.pause w).2 p.id).calls = [] := by
  have hcalls : (p.pause w).2.calls = w.calls := by
    unfold pause
    dsimp only
    split_ifs
    · rfl
    · -- A pause that takes effect at once ends a turn, but calls nobody.
      exact Turn.calls_endPause _
    · rfl
  rw [World.since, hcalls, List.drop_length]

/-- The record of a playback that has paused has all that resuming it takes. -/
theorem resumeRecorded_eq {w : World β} (h : Reached p w) (hrun : p.phase = .running) {k : Nat}
    {log : Log β} {w₁ : World β} (hu : Updated (p.pause w) k log (q, w₁))
    (hpaused : q.phase = .paused) (fuel : Nat) :
    q.resumeRecorded fuel w₁ =
      q.resume fuel w₁ q.start q.resumePoints q.parameters.snapshot false := by
  obtain ⟨-, hcomes⟩ := comesToPause_pause h hrun
  obtain ⟨-, hcomes'⟩ := comesToPause_of_updated h.pause hcomes hu
  generalize (w.since (p.pause w).2 p.id).events ++ log.events = kinds at hcomes'
  cases hcomes' with
  | underWay hholds => simp [hholds.running] at hpaused
  | paused _ _ _ _ hrecord =>
    obtain ⟨record, hrecord, -, hpoints, hparameters⟩ := hrecord
    rw [resumeRecorded, hrecord, Option.bind_some, hpoints, hparameters]
  | ended hphase => simp [hphase] at hpaused

/-- Resuming has one answer at most, whatever the fuel. -/
theorem resume_unique {fuel fuel' start : Nat} {w : World β} {points : List Nat}
    (hpoints : points ≠ []) {parameters : String} {rerun : Bool} {r r' : Playback β × World β}
    (h : q.resume fuel w start points parameters rerun = some r)
    (h' : q.resume fuel' w start points parameters rerun = some r') : r' = r := by
  rw [resume_of_ne_nil _ q w start hpoints] at h h'
  dsimp only at h h'
  split_ifs at h h'
  · exact (Option.some.inj h').symm.trans (Option.some.inj h)
  · exact Turn.run_unique h h'

/-- A pause is transparent: whatever happens until it has taken effect, the playback that is resumed
as its record has it takes the course that it would have taken without the pause. -/
theorem pause_transparent (hS : Secluded S) {w : World β} (h : Reached p w)
    (hrun : p.phase = .running) (hunasked : p.pauseRequested = false)
    (hone : p.pending.length = 1) (hb : p.Behaves S)
    (hids : (p.parameters.items.map (·.id)).Nodup) {k : Nat} {log : Log β} {w₁ : World β}
    (hu : Updated (p.pause w) k log (q, w₁)) (hpaused : q.phase = .paused) :
    Transparent p w k log q w₁ := by
  have hreached : Reached q w₁ := h.pause.updated hu
  have hpoints := (sound_of_reached hreached).resumable hpaused
  have hstands : Stands p.rewound w := h.stands.rewound
  have halone : p.rewound.Alone S :=
    ⟨.refl hstands.sound.notSkipping (by simp [rewound, hrun]) fun _ => hunasked, hb,
      by simp [rewound, hone]⟩
  -- No round changes parameters, so the snapshot is one of the parameters themselves.
  have hparameters : q.parameters = p.parameters :=
    (parameters_rounds (rounds_of_updated h.pause.stands hu)).trans (p.parameters_pause w)
  have hrestored : q.restored q.parameters.snapshot = (q.parameters, []) :=
    restored_snapshot (by rw [hparameters]; exact hids)
  have hresume := resumeRecorded_eq h hrun hu hpaused
  obtain ⟨m, hmax, hafter⟩ := exists_awaitsAfter hS h hrun hunasked hone hb hu hpaused
  obtain ⟨before, more, hcalls, hawaits⟩ := hafter.awaits
  refine ⟨fun hstays => ⟨rewound_eq_self hstays, openQuestion_eq_nil (unresolved_of_reached h)⟩,
    fun {log₀ s} hu₀ => ?_, fun {fuel r} hr {n log₀ s} hlt hu₀ w' => ?_,
    fun {n log₀ s} hn hu₀ => ?_⟩
  · have hrounds := rounds_of_updated hstands hu₀
    -- What has been called while the ending was taken is called as the paused run is resumed.
    obtain ⟨halone', -⟩ := rounds_asked hS halone hrounds
    rw [hmax] at hrounds
    generalize hlog : log₀.calls = calls at hrounds
    generalize hs : s.1 = p' at hrounds
    cases hrounds with
    | next hbefore hround =>
      obtain ⟨rfl, hawait⟩ := hawaits hbefore
      obtain ⟨fuel, r, hr, hlevel, rfl⟩ := hawait.round hS hrestored hround w₁
      refine ⟨⟨fuel, r, (hresume fuel).trans hr⟩, fun {fuel' r'} hr' => ?_⟩
      rw [hresume] at hr'
      obtain rfl := resume_unique hpoints hr hr'
      have hresumed : Reached r'.1 r'.2 := hreached.resume hr
      subst hs
      refine ⟨?_, sameCourse_of_level hS halone' hlevel (hstands.updated hu₀) hresumed.stands⟩
      rw [Log.calls_append, Log.calls_append, calls_since_pause, hcalls, List.nil_append,
        List.append_assoc]
  · rw [hresume] at hr
    have hrounds := rounds_of_updated hstands hu₀
    refine exists_update fun _ hdue => ?_
    -- Before that round the run is held up no more than the paused one, and in it no more than the
    -- resumed one.
    by_cases hn : n < m
    · exact hafter.returns hn hrounds w' hdue
    · obtain rfl : n = m := by omega
      exact (hawaits hrounds).2.returns hS hrestored hr hdue
  · obtain ⟨-, ⟨hzero, -⟩ | ⟨-, hasked⟩⟩ := rounds_asked hS halone (rounds_of_updated hstands hu₀)
    · exact absurd hzero hn
    · exact hasked

end Playback

/-! ### Built-in behaviours -/

/-- The built-in behaviours that mind nothing but their own state. The others ask a condition or
whether a graph runs, or take all outputs at once. -/
def Builtin.isSecluded : Builtin → Bool
  | .comment _ | .message _ | .wait _ | .cycle _ | .controlGraph _ | .setVariable _ => true
  | .waitUntil _ | .check _ | .parallel _ | .runGraph _ => false

theorem Context.SameNode.running_eq {ctx ctx' : Context} (h : ctx.SameNode ctx') :
    ctx'.running = ctx.running := by
  rw [h]

theorem SetVariable.run_eq (s : SetVariable) (vars : Variables) :
    (s.run vars).behaviour = s ∧ (s.run vars).running = false ∧ (s.run vars).wait = 0 := by
  unfold SetVariable.run
  dsimp only
  split <;> exact ⟨rfl, rfl, rfl⟩

theorem Wait.run_eq (b : Wait) {running running' : Bool} (h : running' = running)
    (vars vars' : Variables) :
    (b.run running' vars').behaviour = (b.run running vars).behaviour ∧
      (b.run running' vars').running = (b.run running vars).running ∧
      (b.run running' vars').wait = (b.run running vars).wait := by
  subst h
  unfold Wait.run
  split <;> exact ⟨rfl, rfl, rfl⟩

theorem Builtin.secluded : Secluded fun b : Builtin => b.isSecluded = true where
  fansOut {b} h := by
    cases b with
    | parallel => exact absurd h Bool.false_ne_true
    | _ => rfl
  assign {b} h _ := by cases b <;> exact h
  run {b} h _ _ := by cases b <;> exact h
  choose {b} h _ _ := by cases b <;> exact h
  runs {b} h ctx ctx' vars vars' hctx := by
    cases b with
    | comment | message | cycle | controlGraph => exact ⟨rfl, rfl, rfl⟩
    | wait b =>
      obtain ⟨hbehaviour, hagain, hwait⟩ := b.run_eq hctx.running_eq vars vars'
      exact ⟨congrArg Builtin.wait hbehaviour, hagain, hwait⟩
    | setVariable b =>
      obtain ⟨hbehaviour, hagain, hwait⟩ := b.run_eq vars
      obtain ⟨hbehaviour', hagain', hwait'⟩ := b.run_eq vars'
      exact ⟨congrArg Builtin.setVariable (hbehaviour'.trans hbehaviour.symm),
        hagain'.trans hagain.symm, hwait'.trans hwait.symm⟩
    | waitUntil | check | parallel | runGraph => exact absurd h Bool.false_ne_true
  chooses {b} h _ _ _ _ _ := by
    cases b with
    | check => exact absurd h Bool.false_ne_true
    | _ => exact ⟨rfl, rfl⟩

namespace Playback

/-! ### Examples -/

/-- A wait, and after it a node that leads back once before the run ends. -/
def returning : Playback Builtin where
  id := 0
  graph := "return"
  nodes :=
    [{ id := "", kind := "wait", title := "", enabled := true, endings := [.next],
       behaviour := some (.wait ⟨1, none⟩) },
     { id := "", kind := "cycle", title := "", enabled := true, endings := [.goto 0, .stop],
       behaviour := some (.cycle { outputs := 2, holdsLast := false }) }]
  parameters := ⟨[{ id := 1, value := .string "a;b" }]⟩
  settings := {}

theorem isNew_returning : returning.IsNew := ⟨rfl, rfl, rfl, rfl, by simp [returning]⟩

theorem behaves_of_all {p : Playback Builtin}
    (h : (p.nodes.all fun n => n.behaviour.all Builtin.isSecluded) = true) :
    p.Behaves fun b => b.isSecluded = true := by
  intro n hn b hb
  have hnode := List.all_eq_true.mp h n hn
  rw [hb] at hnode
  exact hnode

/-- The pause is asked for during the wait, and takes effect at its end. Then the first node is
asked for its output, and the run goes on. -/
theorem pause_transparent_returning :
    ∃ r q log, returning.play 5 {} 0 false = some r ∧ Updated (r.1.pause r.2) 1 log q ∧
      Transparent r.1 r.2 1 log q.1 q.2 ∧
      log.calls.map (fun c => (c.form, c.index)) = [(.poll, 0)] ∧
      ∃ fuel resumed, q.1.resumeRecorded fuel q.2 = some resumed ∧
        (log ++ q.2.since resumed.2 q.1.id).calls.map (fun c => (c.form, c.index)) =
          [(.poll, 0), (.choose, 0), (.run, 1), (.choose, 1), (.run, 0)] := by
  have hplay : ((returning.play 5 {} 0 false).map fun r =>
      (r.1.phase, r.1.pauseRequested, r.1.pending.length, r.1.pending.filterMap r.1.resumePoint?)) =
      some (.running, false, 1, []) := by
    decide +kernel
  have hnodes : ((returning.play 5 {} 0 false).map fun r =>
      (r.1.nodes.all fun n => n.behaviour.all Builtin.isSecluded,
        r.1.parameters.items.map (·.id))) = some (true, [1]) := by
    decide +kernel
  have hpausing : ((returning.play 5 {} 0 false).bind fun r =>
      ((r.1.pause r.2).1.update 5 (r.1.pause r.2).2.later).map fun q =>
        (q.1.phase, (r.1.pause r.2).2.sceneLoading,
          ((r.1.pause r.2).1.due (r.1.pause r.2).2.later).length,
          ((r.1.pause r.2).2.later.since q.2 0).calls.map fun c => (c.form, c.index))) =
      some (.paused, false, 1, [(.poll, 0)]) := by
    decide +kernel
  have hgoing : ((returning.play 5 {} 0 false).bind fun r => (r.1.update 5 r.2.later).map fun s =>
      (r.2.sceneLoading, (r.1.due r.2.later).length,
        (r.2.later.since s.2 0).calls.map fun c => (c.form, c.index))) =
      some (false, 1, [(.poll, 0), (.choose, 0), (.run, 1), (.choose, 1), (.run, 0)]) := by
    decide +kernel
  simp only [Option.map_eq_some_iff, Prod.mk.injEq] at hplay
  obtain ⟨r, hr, hrun, hunasked, hone, hpoints⟩ := hplay
  simp only [hr, Option.map_some, Option.bind_some, Option.map_eq_some_iff, Option.some.injEq,
    Prod.mk.injEq] at hnodes hpausing hgoing
  obtain ⟨hall, hids⟩ := hnodes
  obtain ⟨q, hq, hpaused, hscene, hdue, hpoll⟩ := hpausing
  obtain ⟨s, hs, hscene', hdue', hcalls⟩ := hgoing
  have hreached : Reached r.1 r.2 := Reached.play (.new isNew_returning {}) hr
  -- One update lets the pause take effect, and one takes the run without the pause as far.
  have hu := Updated.refl.later hscene hq (List.ne_nil_of_length_pos (by omega))
  have hgoes := Updated.refl.later hscene' hs (List.ne_nil_of_length_pos (by omega))
  rw [Log.empty_append] at hu hgoes
  have htransparent := pause_transparent Builtin.secluded hreached hrun hunasked hone
    (behaves_of_all hall) (by rw [hids]; decide) hu hpaused
  obtain ⟨hsame, -⟩ := htransparent.rewound (List.filterMap_eq_nil_iff.mp hpoints)
  obtain ⟨⟨fuel, resumed, hresumed⟩, hcourse⟩ := htransparent.same (hsame ▸ hgoes)
  obtain ⟨hcalls', -⟩ := hcourse hresumed
  refine ⟨r, q, _, hr, hu, htransparent, hpoll, fuel, resumed, hresumed, ?_⟩
  rw [Log.calls_append, Log.calls_append, calls_since_pause, List.nil_append,
    ← Log.calls_append] at hcalls'
  rw [← hcalls']
  exact hcalls

/-- A node that leads back to itself once. -/
def turning : Playback Builtin where
  id := 0
  graph := "turn"
  nodes :=
    [{ id := "", kind := "cycle", title := "", enabled := true, endings := [.goto 0, .stop],
       behaviour := some (.cycle { outputs := 2, holdsLast := false }) }]
  parameters := ⟨[]⟩
  settings := {}

theorem isNew_turning : turning.IsNew := ⟨rfl, rfl, rfl, rfl, by simp [turning]⟩

/-- A pause is not transparent if the branch waits to come back to its node: the node is asked again
without having run, and with the other answer the run is over. -/
theorem pause_asks_turning_again :
    ∃ r resumed updated, turning.play 5 {} 0 false = some r ∧ Reached r.1 r.2 ∧
      r.1.phase = .running ∧ r.1.pauseRequested = false ∧ r.1.pending.length = 1 ∧
      (r.1.Behaves fun b => b.isSecluded = true) ∧ (r.1.parameters.items.map (·.id)).Nodup ∧
      (r.1.pause r.2).1.phase = .paused ∧
      (r.1.pause r.2).1.resumeRecorded 5 (r.1.pause r.2).2 = some resumed ∧
      r.1.update 5 r.2.later = some updated ∧
      resumed.1.phase = .finished ∧ resumed.2.calls.map (·.form) = [.run, .choose, .choose] ∧
      updated.1.phase = .finished ∧
      updated.2.calls.map (·.form) = [.run, .choose, .run, .choose] := by
  have hplay : ((turning.play 5 {} 0 false).map fun r =>
      (r.1.phase, r.1.pauseRequested, r.1.pending.length, (r.1.pause r.2).1.phase)) =
      some (.running, false, 1, .paused) := by
    decide +kernel
  have hnodes : ((turning.play 5 {} 0 false).map fun r =>
      (r.1.nodes.all fun n => n.behaviour.all Builtin.isSecluded,
        r.1.parameters.items.map (·.id))) = some (true, []) := by
    decide +kernel
  have hresuming : ((turning.play 5 {} 0 false).bind fun r =>
      ((r.1.pause r.2).1.resumeRecorded 5 (r.1.pause r.2).2).map fun s =>
        (s.1.phase, s.2.calls.map (·.form))) =
      some (.finished, [.run, .choose, .choose]) := by
    decide +kernel
  have hgoing : ((turning.play 5 {} 0 false).bind fun r => (r.1.update 5 r.2.later).map fun s =>
      (s.1.phase, s.2.calls.map (·.form))) =
      some (.finished, [.run, .choose, .run, .choose]) := by
    decide +kernel
  simp only [Option.map_eq_some_iff, Prod.mk.injEq] at hplay
  obtain ⟨r, hr, hrun, hunasked, hone, hpaused⟩ := hplay
  simp only [hr, Option.map_some, Option.bind_some, Option.map_eq_some_iff, Option.some.injEq,
    Prod.mk.injEq] at hnodes hresuming hgoing
  obtain ⟨hall, hids⟩ := hnodes
  obtain ⟨resumed, hresumed, hover, hcalls⟩ := hresuming
  obtain ⟨updated, hupdated, hover', hcalls'⟩ := hgoing
  exact ⟨r, resumed, updated, hr, Reached.play (.new isNew_turning {}) hr,
    hrun, hunasked, hone, behaves_of_all hall, by simp [hids], hpaused, hresumed, hupdated, hover,
    hcalls, hover', hcalls'⟩

end Playback

end Cutscene
