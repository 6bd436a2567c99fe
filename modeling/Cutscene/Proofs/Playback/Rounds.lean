import Cutscene.Proofs.Playback.Asking
import Cutscene.Proofs.Playback.Keeps
import Cutscene.Proofs.Playback.SceneChange

/-!
# Rounds of one branch

Between two rounds of updates the one branch of a run waits; in a round it is taken up.
`Playback.Rounds` counts the rounds and gathers what is called, whenever they are. Playbacks that
are level stay level round after round and call the same behaviours (`Rounds.level`), which makes
the course of their updates the same (`sameCourse_of_level`). What a run of one branch calls is told
by `rounds_asked`: every node that is done is asked once.
-/

namespace Cutscene

variable {β : Type} [Behaviour β]

namespace Playback

/-- The turn in which an update takes up what is due. -/
def updateTurn (p : Playback β) (w : World β) : Turn β where
  playback := p.waiting w
  world := w
  ready := p.due w

/-- A round: at some time a branch is due, and the turn that takes it up returns. -/
inductive Round (p : Playback β) : List (Call β) → Playback β → Prop
  | mk {w : World β} {fuel : Nat} {r : Playback β × World β} (hrun : p.phase = .running)
    (hdue : p.due w ≠ []) (hr : (p.updateTurn w).run fuel = some r) :
    Round p (w.since r.2 p.id).calls r.1

/-- A number of rounds, one after the other, and all that is called in them. -/
inductive Rounds (p : Playback β) : Nat → List (Call β) → Playback β → Prop
  | none : Rounds p 0 [] p
  | next {n : Nat} {calls calls' : List (Call β)} {q q' : Playback β} (h : Rounds p n calls q)
    (hround : q.Round calls' q') : Rounds p (n + 1) (calls ++ calls') q'

theorem rounds_of_updated {s s' : Playback β × World β} {n : Nat} {log : Log β}
    (h : Stands s.1 s.2) (hu : Updated s n log s') : Rounds s.1 n log.calls s'.1 := by
  induction hu with
  | refl => exact .none
  | elsewhere _ _ ih => exact ih
  | @update n log p w hu hs fuel r hr ih =>
    rw [Log.calls_append]
    rcases (h.updated hu).update_cases hs hr with ⟨hdue, rfl⟩ | ⟨hdue, hrun, hturn⟩
    · rw [if_pos hdue, (World.Grows.refl w p.id).since_eq, List.append_nil]
      exact ih
    · rw [if_neg hdue]
      exact .next ih (.mk hrun hdue hturn)

/-- Rounds can be split anywhere. -/
theorem Rounds.split {p q : Playback β} {m n : Nat} {calls : List (Call β)}
    (h : Rounds p (m + n) calls q) :
    ∃ before after mid, Rounds p m before mid ∧ Rounds mid n after q ∧ calls = before ++ after := by
  induction n generalizing q calls with
  | zero => exact ⟨calls, [], q, h, .none, (List.append_nil _).symm⟩
  | succ n ih =>
    cases h with
    | next h hround =>
      obtain ⟨before, after, mid, hbefore, hafter, rfl⟩ := ih h
      exact ⟨before, _, mid, hbefore, .next hafter hround, List.append_assoc ..⟩

theorem Rounds.single {p q : Playback β} {calls : List (Call β)} (h : Rounds p 1 calls q) :
    p.Round calls q := by
  cases h with
  | next h hround =>
    cases h
    exact hround

theorem Round.running {p q : Playback β} {calls : List (Call β)} (h : p.Round calls q) :
    p.phase = .running := by
  obtain ⟨hrun, -, -⟩ := h
  exact hrun

/-- What runs after some rounds has been running all along. -/
theorem Rounds.running {p q : Playback β} {n : Nat} {calls : List (Call β)}
    (h : Rounds p n calls q) (hrun : q.phase = .running) : p.phase = .running := by
  induction h with
  | none => exact hrun
  | next _ hround ih => exact ih hround.running

/-! ### One branch -/

omit [Behaviour β] in
/-- A playback of nodes that mind nothing but themselves, with one branch at most, not asked to
pause. -/
structure Alone (S : β → Prop) (p : Playback β) : Prop where
  level : p.Level false p
  behaves : p.Behaves S
  single : p.pending.length ≤ 1

omit [Behaviour β] in
/-- The one branch is due if any is. -/
theorem due_of_single {p : Playback β} {w : World β} (h : p.pending.length ≤ 1)
    (hdue : p.due w ≠ []) : p.due w = p.pending ∧ (p.waiting w).pending = [] := by
  have hperm := (p.perm_due_append_waiting w).length_eq
  rw [List.length_append] at hperm
  have hpos := List.length_pos_of_ne_nil hdue
  have hall : p.due w = p.pending := by
    refine List.Sublist.eq_of_length List.filter_sublist ?_
    omega
  exact ⟨hall, List.eq_nil_of_length_eq_zero (by omega)⟩

/-- While a scene is being loaded one branch waits on, unless the loading ends the run. So `Updated`
may leave such updates out. -/
theorem update_of_sceneLoading {p : Playback β} {w : World β} (h : Stands p w)
    (hone : p.pending.length ≤ 1) (hs : w.sceneLoading = true)
    (hstays : (p.settings.survivesSceneChange && !p.isSkippable) = false) (fuel : Nat) :
    p.update fuel w = some (p, w) := by
  have hcut : p.isCutOff [w.clock] = false := by
    rw [isCutOff, Bool.and_assoc p.isRunning, hstays, Bool.and_false, Bool.false_and]
  have hpending : p.pendingThrough w.clock = p.pending := by
    unfold pendingThrough
    split_ifs
    · exact putOff_of_length_le_one w.clock hone
    · rfl
  rw [update_eq_throughScene fuel hs h.live, throughScene, hcut, if_neg Bool.false_ne_true,
    hpending]

section

variable {S : β → Prop} {asked : Bool} {p p' q q' : Playback β} {calls calls' : List (Call β)}

omit [Behaviour β] in
theorem Level.length_eq (h : p.Level asked q) : q.pending.length = p.pending.length := by
  have hlength := congrArg List.length h.pending
  rw [List.length_map, List.length_map] at hlength
  exact hlength

omit [Behaviour β] in
/-- Level playbacks take up their one branch in step. -/
theorem Level.inStep (h : p.Level asked q) (hb : p.Behaves S) (hp : p.pending.length ≤ 1)
    {w w' : World β} (hdue : p.due w ≠ []) (hdue' : q.due w' ≠ []) :
    Turn.InStep asked S w w' [] (p.updateTurn w) (q.updateTurn w') := by
  obtain ⟨hready, hnone⟩ := due_of_single hp hdue
  obtain ⟨hready', hnone'⟩ := due_of_single (h.length_eq ▸ hp) hdue'
  have hlevel : (p.waiting w).Level asked (q.waiting w') :=
    ⟨h.identity, h.nodes, h.parameters, h.phase, h.unpaused, h.notSkipping, h.notSkipping',
      by rw [hnone, hnone'], h.unasked, h.requested⟩
  exact .of_level hlevel hb (by rw [hready, hready', h.pending]) w w'

/-- If a round of a playback returns, every round of one that is level with it returns too. -/
theorem Round.returns (hS : Secluded S) (hl : p.Level false q) (hb : p.Behaves S)
    (hp : p.pending.length ≤ 1) (h : p.Round calls p') {w : World β} (hdue : q.due w ≠ []) :
    ∃ fuel r, (q.updateTurn w).run fuel = some r := by
  obtain ⟨-, hdue₀, hr⟩ := h
  obtain ⟨r', hr', -⟩ := (hl.inStep hb hp hdue₀ hdue).run hS hr
  exact ⟨_, r', hr'⟩

/-- The same behaviours are called in a round of level playbacks, and they are level again. -/
theorem Round.level (hS : Secluded S) (hl : p.Level false q) (hb : p.Behaves S)
    (hp : p.pending.length ≤ 1) (h : p.Round calls p') (h' : q.Round calls' q') :
    calls' = calls ∧ p'.Level false q' := by
  obtain ⟨-, hdue, hr⟩ := h
  obtain ⟨-, hdue', hr'⟩ := h'
  obtain ⟨r, hr'', hends⟩ := (hl.inStep hb hp hdue hdue').run hS hr
  obtain rfl := Turn.run_unique hr' hr''
  obtain ⟨more, hcalls, hcalls'⟩ := hends.calls_eq
  refine ⟨?_, hends.level⟩
  rw [World.since, World.since, hcalls, hcalls', List.drop_left, List.drop_left]

/-! ### What is asked -/

/-- The question that is asked before anything else: to the node of a branch that is there to have
an ending taken. -/
def openQuestion (p : Playback β) : List (Call β) :=
  p.pending.flatMap fun b => if b.step = .resolve then Turn.asked ⟨p, {}, []⟩ b.index else []

theorem openQuestion_eq_nil (h : p.Unresolved) : p.openQuestion = [] := by
  rw [openQuestion, List.flatMap_eq_nil_iff]
  exact fun b hb => if_neg (h b hb)

/-- What is called in a round of one branch, and what the round leaves. -/
theorem Round.asks (hS : Secluded S) (ha : p.Alone S) (h : p.Round calls q) :
    q.Alone S ∧ q.Unresolved ∧
      ∃ once, AskedOnce once ∧ calls = p.openQuestion ++ once := by
  obtain ⟨hrun, hdue, hr⟩ := h
  rename_i w fuel r
  obtain ⟨hready, hnone⟩ := due_of_single ha.single hdue
  -- Something is due, and no more than one branch is there.
  obtain ⟨b, hb⟩ : ∃ b, p.pending = [b] := by
    refine List.length_eq_one_iff.mp (Nat.le_antisymm ha.single ?_)
    rw [← hready]
    exact List.length_pos_of_ne_nil hdue
  have hturn : (p.updateTurn w).ready = [b] := hready.trans hb
  cases fuel with
  | zero =>
    rw [Turn.run_zero_of_ready_eq_cons hrun hturn] at hr
    simp at hr
  | succ fuel =>
    rw [Turn.run_of_ready_eq_cons hrun hturn] at hr
    -- Without the one branch nothing is under way, so what it leads to is alone again.
    have hplain : ({ p.updateTurn w with ready := [] } : Turn β).Plain S :=
      ⟨.refl ha.level.notSkipping ha.level.unpaused ha.level.unasked, ha.behaves⟩
    obtain ⟨hsolitary, first, hfirst, hvisit, hresolve⟩ :=
      Turn.askedOnce_advance hS hplain hrun hnone b
    obtain ⟨hlevel, hbehaves, hsingle, hunresolved, once, honce, hcalls⟩ :=
      Turn.askedOnce_run hS (hplain.advance hS hrun b) hsolitary hr
    have hsince : (w.since r.2 p.id).calls = first ++ once := by
      rw [World.since, hcalls, hfirst, List.append_assoc]
      exact List.drop_left
    -- What waited could be a node that has been recorded and is asked only now.
    have hopen : p.openQuestion =
        if b.step = .resolve then Turn.asked ⟨p, {}, []⟩ b.index else [] := by
      rw [openQuestion, hb, List.flatMap_singleton]
    refine ⟨⟨hlevel, hbehaves, hsingle⟩, hunresolved, ?_⟩
    rw [hsince, hopen]
    split_ifs with hstep
    · -- That node is asked first, and what comes after it is asked once.
      rw [hresolve hstep]
      exact ⟨once, honce, rfl⟩
    · -- Nothing was left to be asked, so all of it is asked once.
      exact ⟨first ++ once, (hvisit hstep).append honce, rfl⟩

/-- Whatever rounds a run of one branch goes through: every node that is done is asked once. -/
theorem rounds_asked (hS : Secluded S) (ha : p.Alone S) {n : Nat} (h : Rounds p n calls q) :
    q.Alone S ∧ (n = 0 ∧ q = p ∧ calls = [] ∨ q.Unresolved ∧
      ∃ once, AskedOnce once ∧ calls = p.openQuestion ++ once) := by
  induction h with
  | none => exact ⟨ha, Or.inl ⟨rfl, rfl, rfl⟩⟩
  | next _ hround ih =>
    obtain ⟨halone, hbefore⟩ := ih
    obtain ⟨halone', hunresolved, once', honce', rfl⟩ := hround.asks hS halone
    refine ⟨halone', Or.inr ⟨hunresolved, ?_⟩⟩
    rcases hbefore with ⟨-, rfl, rfl⟩ | ⟨hbefore, once, honce, rfl⟩
    · exact ⟨once', honce', rfl⟩
    · rw [openQuestion_eq_nil hbefore, List.nil_append, List.append_assoc]
      exact ⟨once ++ once', honce.append honce', rfl⟩

/-- Only at the beginning a branch may be there to have an ending taken. -/
theorem Rounds.alone (hS : Secluded S) (ha : p.Alone S) (hu : p.Unresolved) {n : Nat}
    (h : Rounds p n calls q) : q.Alone S ∧ q.Unresolved := by
  obtain ⟨halone, ⟨-, rfl, -⟩ | ⟨hunresolved, -⟩⟩ := rounds_asked hS ha h
  · exact ⟨halone, hu⟩
  · exact ⟨halone, hunresolved⟩

/-! ### Rounds in step -/

/-- In as many rounds level playbacks call the same behaviours, and they are level again. -/
theorem Rounds.level (hS : Secluded S) (ha : p.Alone S) (hl : p.Level false q) {n : Nat}
    (h : Rounds p n calls p') (h' : Rounds q n calls' q') :
    calls' = calls ∧ p'.Level false q' := by
  induction h generalizing calls' q' with
  | none =>
    cases h'
    exact ⟨rfl, hl⟩
  | next h hround ih =>
    cases h' with
    | next h' hround' =>
      obtain ⟨rfl, hlevel⟩ := ih h'
      obtain ⟨halone, -⟩ := rounds_asked hS ha h
      obtain ⟨rfl, hlevel'⟩ := hround.level hS hlevel halone.behaves halone.single hround'
      exact ⟨rfl, hlevel'⟩

/-- A playback that has been through fewer rounds than one that it is level with can go on. -/
theorem Rounds.returns (hS : Secluded S) (ha : p.Alone S) (hl : p.Level false q) {m n : Nat}
    (hlt : m < n) (h : Rounds p n calls p') (h' : Rounds q m calls' q') (w : World β) :
    ∃ fuel r, q'.update fuel w = some r := by
  obtain ⟨k, rfl⟩ : ∃ k, n = m + (1 + k) := ⟨n - m - 1, by omega⟩
  obtain ⟨_, _, mid, hbefore, hafter, -⟩ := h.split
  obtain ⟨_, _, next, hfirst, -, -⟩ := hafter.split
  obtain ⟨-, hlevel⟩ := hbefore.level hS ha hl h'
  obtain ⟨halone, -⟩ := rounds_asked hS ha hbefore
  exact exists_update fun _ hdue =>
    hfirst.single.returns hS hlevel halone.behaves halone.single hdue

end

/-! ### Courses -/

/-- The same course on two sides, whenever the updates are: in as many rounds the same behaviours
are called, and one side is not held up before the other. -/
structure SameCourse (s s' : Playback β × World β) : Prop where
  calls_eq : ∀ {n : Nat} {log log' : Log β} {t t' : Playback β × World β},
    Updated s n log t → Updated s' n log' t' → log'.calls = log.calls ∧ t.1.Level false t'.1
  returns : ∀ {m n : Nat} {log log' : Log β} {t t' : Playback β × World β}, m < n →
    Updated s n log t → Updated s' m log' t' → ∀ w, ∃ fuel r, t'.1.update fuel w = some r
  returns' : ∀ {m n : Nat} {log log' : Log β} {t t' : Playback β × World β}, m < n →
    Updated s m log t → Updated s' n log' t' → ∀ w, ∃ fuel r, t.1.update fuel w = some r

theorem sameCourse_of_level {S : β → Prop} (hS : Secluded S) {p q : Playback β} {w w' : World β}
    (ha : p.Alone S) (hl : p.Level false q) (hp : Stands p w) (hq : Stands q w') :
    SameCourse (p, w) (q, w') where
  calls_eq h h' := (rounds_of_updated hp h).level hS ha hl (rounds_of_updated hq h')
  returns hlt h h' := (rounds_of_updated hp h).returns hS ha hl hlt (rounds_of_updated hq h')
  returns' hlt h h' := (rounds_of_updated hq h').returns hS
    ⟨.refl hl.symm.notSkipping hl.symm.unpaused hl.symm.unasked, hl.behaves ha.behaves,
      hl.length_eq ▸ ha.single⟩
    hl.symm hlt (rounds_of_updated hp h)

end Playback

end Cutscene
