import Cutscene.Proofs.Playback.Stage

/-!
# Runs of a turn

What taking up a branch can come to while nothing is skipped is listed once, in `Taken`. A run of a
turn is branch after branch: what every branch keeps, the run keeps (`run_induction`), and with more
fuel than it needs a run ends the same way (`run_mono`).
-/

namespace Cutscene.Turn

variable {β : Type} [Behaviour β]

/-! ### One branch -/

omit [Behaviour β] in
/-- The branches that are under way. -/
def inFlight (t : Turn β) : List Branch := t.ready ++ t.playback.pending

/-- A node that has been run, from the beginning or not. -/
def ran (t : Turn β) (index : Nat) (running : Bool) (b : β) : Turn β :=
  t.called (if running then .poll else .run) index b (t.runOutcome index running b)
    (t.runOutcome index running b).running

/-- The node has the behaviour that the call has left it with. -/
theorem getElem?_ran {t : Turn β} {index : Nat} {node : Node β}
    (h : t.playback.nodes[index]? = some node) (running : Bool) (b : β) :
    (t.ran index running b).playback.nodes[index]? = some { node with
      behaviour := some (t.runOutcome index running b).behaviour
      running := (t.runOutcome index running b).running } := by
  change (t.playback.nodes.modify _ _)[index]? = _
  rw [List.getElem?_modify_eq, h]
  rfl

/-- A branch runs a behaviour: that of the node it arrives at, with its parameters, or that of the
node it goes on with. -/
inductive Runs (t : Turn β) (b : Branch) (node : Node β) : Bool → β → Prop
  | arrives {b₀ : β} (hb : b.step = .visit) (he : node.enabled = true)
    (h : node.behaviour = some b₀) : Runs t b node false (t.assigned b₀)
  | continues {b₀ : β} (hb : b.step = .poll) (h : node.behaviour = some b₀) :
    Runs t b node node.running b₀

/-- What taking up a branch can come to while nothing is skipped. -/
inductive Taken (t : Turn β) (b : Branch) : Turn β → Prop
  /-- There is no such node. -/
  | lost (hn : t.playback.nodes[b.index]? = none) : Taken t b t.settle
  /-- The node is passed over. -/
  | passed {node : Node β} (hb : b.step = .visit) (hn : t.playback.nodes[b.index]? = some node)
    (hr : node.isRunnable = false) :
    Taken t b (t.push { index := b.index + 1, step := .visit, origin := some b.index })
  /-- The node wants to be called again. -/
  | suspended {node : Node β} {running : Bool} {behaviour : β}
    (hn : t.playback.nodes[b.index]? = some node) (hr : t.Runs b node running behaviour)
    (ho : (t.runOutcome b.index running behaviour).running = true) :
    Taken t b ((t.ran b.index running behaviour).suspend b.index
      (t.runOutcome b.index running behaviour).wait)
  /-- The node is done. At its first call it is so too if it asks for no time. -/
  | completed {node : Node β} {running : Bool} {behaviour : β}
    (hn : t.playback.nodes[b.index]? = some node) (hr : t.Runs b node running behaviour)
    (ho : (t.runOutcome b.index running behaviour).running = true →
      running = false ∧ ((t.runOutcome b.index running behaviour).wait != 0) = false) :
    Taken t b ((t.ran b.index running behaviour).finish b.index)
  /-- The node was done already. -/
  | resolved {node : Node β} (hn : t.playback.nodes[b.index]? = some node)
    (hb : b.step = .resolve ∨ b.step = .poll ∧ node.behaviour = none) :
    Taken t b (t.finish b.index)

omit [Behaviour β] in
theorem hop_of_not_skipping {t : Turn β} (h : t.playback.skipping = false) : t.hop = (t, true) := by
  simp only [hop, h, Bool.false_eq_true, if_false]

omit [Behaviour β] in
theorem isRunnable_eq_false {node : Node β} (h : node.isRunnable = false) :
    node.enabled = false ∨ node.behaviour = none := by
  rw [Node.isRunnable, Bool.and_eq_false_iff, Option.isSome_eq_false_iff,
    Option.isNone_iff_eq_none] at h
  exact h

theorem taken_visit {t : Turn β} (h : t.playback.skipping = false) {b : Branch}
    (hb : b.step = .visit) : t.Taken b (t.visit b.index) := by
  have hhop := hop_of_not_skipping h
  have hhop₁ : t.hop.1 = t := congrArg Prod.fst hhop
  have hhop₂ : t.hop.2 = true := congrArg Prod.snd hhop
  cases hn : t.playback.nodes[b.index]? with
  | none =>
    -- A branch to a node that is not there is lost.
    rw [visit_of_none hhop₂ (by rw [hhop₁]; exact hn), hhop₁]
    exact .lost hn
  | some node =>
    have hn₁ : t.hop.1.playback.nodes[b.index]? = some node := by rw [hhop₁]; exact hn
    cases hr : node.isRunnable with
    | false =>
      -- A node that is disabled or does nothing is passed over.
      rw [visit_of_not_runnable hhop₂ hn₁ (isRunnable_eq_false hr), hhop₁]
      exact .passed hb hn hr
    | true =>
      obtain ⟨he, hsome⟩ := Bool.and_eq_true_iff.mp hr
      obtain ⟨b₀, hb₀⟩ := Option.isSome_iff_exists.mp hsome
      have hruns : t.Runs b node false (t.assigned b₀) := .arrives hb he hb₀
      rw [visit_of_runnable hhop₂ hn₁ he hb₀, hhop₁, enter_of_playing h]
      dsimp only
      split_ifs with hw
      · -- It wants another call and says when.
        exact .suspended hn hruns (Bool.and_eq_true_iff.mp hw).1
      · -- It is done, or it wants another call at once, which counts as done when it is entered.
        refine .completed hn hruns fun ho => ⟨rfl, ?_⟩
        rw [ho, Bool.true_and, Bool.not_eq_true] at hw
        exact hw

theorem taken_poll {t : Turn β} {b : Branch} (hb : b.step = .poll) :
    t.Taken b (t.poll b.index) := by
  cases hn : t.playback.nodes[b.index]? with
  | none =>
    rw [poll_of_none hn]
    exact .lost hn
  | some node =>
    cases hb₀ : node.behaviour with
    | none =>
      rw [poll_of_behaviour_none hn hb₀]
      -- There is nothing to call again, so the node counts as done.
      exact .resolved hn (Or.inr ⟨hb, hb₀⟩)
    | some b₀ =>
      have hruns : t.Runs b node node.running b₀ := .continues hb hb₀
      rw [poll_of_some hn hb₀]
      change t.Taken b
        (if (t.runOutcome b.index node.running b₀).running = true then
          (t.ran b.index node.running b₀).suspend b.index _
        else (t.ran b.index node.running b₀).finish b.index)
      split_ifs with hw
      · exact .suspended hn hruns hw
      · exact .completed hn hruns fun ho => absurd ho hw

/-- There is nothing else that taking up a branch can come to. -/
theorem taken_advance {t : Turn β} (h : t.playback.skipping = false) (b : Branch) :
    t.Taken b (t.advance b) := by
  unfold advance
  cases hb : b.step with
  | visit => exact taken_visit h hb
  | poll => exact taken_poll hb
  | resolve =>
    cases hn : t.playback.nodes[b.index]? with
    | none =>
      dsimp only
      rw [finish_of_none hn]
      exact .lost hn
    | some node => exact .resolved hn (Or.inl hb)

/-! ### Branch after branch -/

theorem run_of_not_running {t : Turn β} (h : t.playback.phase ≠ .running) (fuel : Nat) :
    t.run fuel = some t.view := by
  cases fuel with
  | zero =>
    rw [run, if_pos (by simp [h])]
    rfl
  | succ fuel =>
    rw [run]
    split
    · rfl
    · rw [if_neg h]
      rfl

theorem run_of_ready_eq_nil {t : Turn β} (h : t.ready = []) (fuel : Nat) :
    t.run fuel = some t.view := by
  cases fuel with
  | zero =>
    rw [run, if_pos (by simp [h])]
    rfl
  | succ fuel =>
    rw [run, h]
    rfl

theorem run_of_ready_eq_cons {t : Turn β} {b : Branch} {rest : List Branch}
    (hp : t.playback.phase = .running) (h : t.ready = b :: rest) (fuel : Nat) :
    t.run (fuel + 1) = (({ t with ready := rest } : Turn β).advance b).run fuel := by
  rw [run, h]
  dsimp only
  rw [if_pos hp]

/-- A branch that is left keeps a run without fuel from having an answer. -/
theorem run_zero_of_ready_eq_cons {t : Turn β} {b : Branch} {rest : List Branch}
    (hp : t.playback.phase = .running) (h : t.ready = b :: rest) : t.run 0 = none := by
  rw [run, if_neg (by simp [h, hp])]

omit [Behaviour β] in
/-- A turn is over, or the next branch is to be taken up. -/
theorem over_or_ready (t : Turn β) :
    (t.ready = [] ∨ t.playback.phase ≠ .running) ∨
      t.playback.phase = .running ∧ ∃ b rest, t.ready = b :: rest := by
  by_cases hp : t.playback.phase = .running
  · cases h : t.ready with
    | nil => exact Or.inl (Or.inl rfl)
    | cons b rest => exact Or.inr ⟨hp, b, rest, rfl⟩
  · exact Or.inl (Or.inr hp)

theorem run_of_over {t : Turn β} (h : t.ready = [] ∨ t.playback.phase ≠ .running) (fuel : Nat) :
    t.run fuel = some t.view := by
  rcases h with h | h
  · exact run_of_ready_eq_nil h fuel
  · exact run_of_not_running h fuel

/-- What holds of a turn and outlasts every branch holds at the end of the run. -/
theorem run_induction {I : Turn β → Prop}
    (hstep : ∀ (t : Turn β) (b : Branch) (rest : List Branch), I t → t.playback.phase = .running →
      t.ready = b :: rest → I (({ t with ready := rest } : Turn β).advance b))
    {fuel : Nat} {t : Turn β} {r : Playback β × World β} (ht : I t) (h : t.run fuel = some r) :
    ∃ u, I u ∧ r = u.view ∧ (u.ready = [] ∨ u.playback.phase ≠ .running) := by
  induction fuel generalizing t with
  | zero =>
    rcases t.over_or_ready with hover | ⟨hp, b, rest, hready⟩
    · rw [run_of_over hover] at h
      exact ⟨t, ht, (Option.some.inj h).symm, hover⟩
    · -- A branch is left but no fuel.
      rw [run_zero_of_ready_eq_cons hp hready] at h
      simp at h
  | succ fuel ih =>
    rcases t.over_or_ready with hover | ⟨hp, b, rest, hready⟩
    · rw [run_of_over hover] at h
      exact ⟨t, ht, (Option.some.inj h).symm, hover⟩
    · rw [run_of_ready_eq_cons hp hready] at h
      exact ih (hstep t b rest ht hp hready) h

/-- More fuel than a run needs changes nothing. -/
theorem run_mono {fuel fuel' : Nat} {t : Turn β} {r : Playback β × World β}
    (h : t.run fuel = some r) (hle : fuel ≤ fuel') : t.run fuel' = some r := by
  induction fuel generalizing t fuel' with
  | zero =>
    rcases t.over_or_ready with hover | ⟨hp, b, rest, hready⟩
    · rw [run_of_over hover] at h ⊢
      exact h
    · rw [run_zero_of_ready_eq_cons hp hready] at h
      simp at h
  | succ fuel ih =>
    rcases t.over_or_ready with hover | ⟨hp, b, rest, hready⟩
    · rw [run_of_over hover] at h ⊢
      exact h
    · -- The larger fuel is a successor, too, so both runs take up the same branch.
      obtain ⟨fuel', rfl⟩ : ∃ k, fuel' = k + 1 := ⟨fuel' - 1, by omega⟩
      rw [run_of_ready_eq_cons hp hready] at h ⊢
      exact ih h (by omega)

/-- A run has one answer at most, whatever the fuel. -/
theorem run_unique {fuel fuel' : Nat} {t : Turn β} {r r' : Playback β × World β}
    (h : t.run fuel = some r) (h' : t.run fuel' = some r') : r' = r := by
  have hmax := run_mono h (Nat.le_max_left fuel fuel')
  have hmax' := run_mono h' (Nat.le_max_right fuel fuel')
  exact Option.some.inj (hmax'.symm.trans hmax)

end Cutscene.Turn
