import Cutscene.Proofs.Log
import Cutscene.Proofs.Playback.Reached

/-!
# Update after update

`Playback.Updated` follows a playback of which nothing is asked but to be updated, while the clock
and everything else in the world move on. It counts the rounds in which a branch was due, and
gathers what the updates leave behind in one log.
-/

namespace Cutscene

variable {β : Type}

/-- The same world a second later. -/
def World.later (w : World β) : World β := { w with clock := w.clock.advance 1000000000 }

namespace Playback

/-- Without a branch that is due every branch goes on waiting. -/
theorem waiting_of_due_eq_nil {p : Playback β} {w : World β} (h : p.due w = []) :
    p.waiting w = p := by
  have hnone : p.pending.filter (!·.wake.isDue w.clock) = p.pending := by
    rw [List.filter_eq_self]
    intro b hb
    have hdue := List.filter_eq_nil_iff.mp h b hb
    simpa using hdue
  rw [waiting, hnone]

/-- The branches that are due and those that are not are all there are. -/
theorem perm_due_append_waiting (p : Playback β) (w : World β) :
    (p.due w ++ (p.waiting w).pending).Perm p.pending :=
  List.filter_append_perm _ p.pending

variable [Behaviour β]

/-- What updates make of a playback and the world around it, none of them while a scene is being
loaded: the number of rounds in which a branch was due, and what the updates left behind. -/
inductive Updated (s : Playback β × World β) : Nat → Log β → Playback β × World β → Prop
  | refl : Updated s 0 {} s
  /-- Anything happens to the world but to the record of the playback. -/
  | elsewhere {rounds : Nat} {log : Log β} {p : Playback β} {w : World β}
    (h : Updated s rounds log (p, w)) {w' : World β}
    (hw : w'.registry.record? p.id = w.registry.record? p.id) : Updated s rounds log (p, w')
  | update {rounds : Nat} {log : Log β} {p : Playback β} {w : World β}
    (h : Updated s rounds log (p, w)) (hs : w.sceneLoading = false) {fuel : Nat}
    {r : Playback β × World β} (hr : p.update fuel w = some r) :
    Updated s (rounds + if p.due w = [] then 0 else 1) (log ++ w.since r.2 p.id) r

/-- A round a second after the update before. -/
theorem Updated.later {s : Playback β × World β} {rounds : Nat} {log : Log β} {p : Playback β}
    {w : World β} (h : Updated s rounds log (p, w)) (hs : w.sceneLoading = false) {fuel : Nat}
    {r : Playback β × World β} (hr : p.update fuel w.later = some r) (hdue : p.due w.later ≠ []) :
    Updated s (rounds + 1) (log ++ w.later.since r.2 p.id) r := by
  have hlater : Updated s rounds log (p, w.later) := h.elsewhere rfl
  have hnext := hlater.update hs hr
  rw [if_neg hdue] at hnext
  exact hnext

theorem Reached.updated {s s' : Playback β × World β} {rounds : Nat} {log : Log β}
    (h : Reached s.1 s.2) (hu : Updated s rounds log s') : Reached s'.1 s'.2 := by
  induction hu with
  | refl => exact h
  | elsewhere _ hw ih => exact .elsewhere ih hw
  | update _ hs hr ih => exact ih.update hr

omit [Behaviour β] in
/-- What updates ask of a playback: it is sound, and registered as running if it runs. -/
structure Stands (p : Playback β) (w : World β) : Prop where
  sound : p.Sound
  live : IsLive p w

theorem Reached.stands {p : Playback β} {w : World β} (h : Reached p w) : Stands p w :=
  ⟨sound_of_reached h, h.isLive⟩

omit [Behaviour β] in
theorem Stands.elsewhere {p : Playback β} {w w' : World β} (h : Stands p w)
    (hw : w'.registry.record? p.id = w.registry.record? p.id) : Stands p w' := by
  refine ⟨h.sound, fun hrun => ?_⟩
  have hlive := h.live hrun
  unfold Registry.isLive at hlive ⊢
  rw [hw]
  exact hlive

/-- An update of a playback either leaves it as it is or takes up what is due. -/
theorem Stands.update_cases {p : Playback β} {w : World β} (h : Stands p w)
    (hs : w.sceneLoading = false) {fuel : Nat} {r : Playback β × World β}
    (hr : p.update fuel w = some r) :
    p.due w = [] ∧ r = (p, w) ∨
      p.due w ≠ [] ∧ p.phase = .running ∧
        Turn.run fuel { playback := p.waiting w, world := w, ready := p.due w } = some r := by
  by_cases hrun : p.phase = .running
  · rw [update_of_isLive fuel hrun (h.sound.waits hrun) (h.live hrun)] at hr
    split_ifs at hr with hdue hload hsurvives
    · rw [waiting_of_due_eq_nil hdue] at hr
      exact Or.inl ⟨hdue, (Option.some.inj hr).symm⟩
    · simp [hs] at hload
    · simp [hs] at hload
    · exact Or.inr ⟨hdue, hrun, hr⟩
  · rw [update_of_nothing_waiting fuel w (Or.inl hrun)] at hr
    refine Or.inl ⟨?_, (Option.some.inj hr).symm⟩
    rw [due, (h.sound.rests hrun).1]
    rfl

theorem Stands.updated {s s' : Playback β × World β} {rounds : Nat} {log : Log β}
    (h : Stands s.1 s.2) (hu : Updated s rounds log s') : Stands s'.1 s'.2 := by
  induction hu with
  | refl => exact h
  | elsewhere _ hw ih => exact ih.elsewhere hw
  | @update _ _ p w _ _ fuel r hr ih =>
    have hperform : p.perform fuel w .update = some r := hr
    exact ⟨ih.sound.update ih.live hr, ih.live.perform hperform⟩

/-- An update returns if the turn returns that takes up what is due. -/
theorem exists_update {p : Playback β} {w : World β}
    (hr : p.phase = .running → p.due w ≠ [] →
      ∃ fuel r, Turn.run fuel { playback := p.waiting w, world := w, ready := p.due w } = some r) :
    ∃ fuel r, p.update fuel w = some r := by
  by_cases hwaits : p.phase ≠ .running ∨ p.pending = []
  · exact ⟨0, _, update_of_nothing_waiting 0 w hwaits⟩
  · rw [not_or, not_not] at hwaits
    obtain ⟨hrun, hpending⟩ := hwaits
    cases hlive : w.registry.isLive p.id with
    | false => exact ⟨0, _, update_of_not_isLive 0 hrun hpending hlive⟩
    | true =>
      by_cases hdue : p.due w = []
      · exact ⟨0, _, (update_of_isLive 0 hrun hpending hlive).trans (if_pos hdue)⟩
      · obtain ⟨fuel, r, hr⟩ := hr hrun hdue
        refine ⟨fuel, ?_⟩
        rw [update_of_isLive fuel hrun hpending hlive, if_neg hdue]
        split_ifs
        · exact ⟨_, rfl⟩
        · exact ⟨_, rfl⟩
        · exact ⟨r, hr⟩

end Playback

end Cutscene
