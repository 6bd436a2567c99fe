import Cutscene.Proofs.Playback.Traits

/-!
# What is taken up, and when

`Turn.Takes` follows a turn with the branches that it takes up, in their order. A branch that begins
to wait is put aside, and a turn only takes up what was ready at its beginning or has been made
ready since (`Changes.ready`), which waits for nothing. So nothing that waits is taken up but by an
update, and an update takes it up once; and a node that leads back to itself is not run again by the
operation that has run it (`Playback.TakesUp`).
-/

namespace Cutscene

variable {β : Type} [Behaviour β]

namespace Turn

/-- A turn comes to another one by taking up branches, first one first. -/
inductive Takes (t : Turn β) : List Branch → Turn β → Prop
  | refl : Takes t [] t
  | next {taken : List Branch} {u : Turn β} {b : Branch} {rest : List Branch}
    (h : Takes t taken u) (hp : u.playback.phase = .running) (hr : u.ready = b :: rest) :
    Takes t (taken ++ [b]) (({ u with ready := rest } : Turn β).advance b)

variable {t u : Turn β} {taken : List Branch}

theorem Takes.exists_works (h : t.Takes taken u) : ∃ stops, t.Works stops u := by
  induction h with
  | refl => exact ⟨[], .refl⟩
  | next _ hp hr ih =>
    obtain ⟨stops, hu⟩ := ih
    exact ⟨_, hu.next hp hr⟩

/-! ### What is ready -/

/-- What can be made ready does not change on the way, unless a skip comes to its end. -/
theorem Changes.makesReady (h : t.Changes u) {b : Branch} (hb : u.playback.MakesReady b) :
    t.playback.MakesReady b := by
  refine ⟨hb.visit, hb.now, fun hs horigin => ?_⟩
  obtain ⟨hindex, n, hn, hmem⟩ := hb.returns (h.notSkipping hs) horigin
  have hendings : u.playback.nodes.map (·.endings) = t.playback.nodes.map (·.endings) :=
    h.invariant (I := fun u : Turn β =>
      u.playback.nodes.map (·.endings) = t.playback.nodes.map (·.endings)) rfl
      fun _ _ hu _ hc => hc.endings.trans hu
  have hgraph : u.playback.graph = t.playback.graph :=
    h.invariant (I := fun u : Turn β => u.playback.graph = t.playback.graph) rfl
      fun _ _ hu _ hc => (congrArg Playback.Identity.graph hc.identity).trans hu
  have hat := congrArg (·[0]?) hendings
  simp only [List.getElem?_map, hn, Option.map_some] at hat
  obtain ⟨m, hm, hsame⟩ := Option.map_eq_some_iff.mp hat.symm
  exact ⟨hindex, m, hm, by rw [hsame, ← hgraph]; exact hmem⟩

/-- A change makes a branch ready only at once. -/
theorem Change.ready (h : t.Change u) {b : Branch} (hb : ¬ t.playback.MakesReady b) :
    u.ready.count b ≤ t.ready.count b := by
  cases h with
  | taken hr =>
    rw [hr]
    exact List.count_le_count_cons
  | @pushed c hc =>
    have hne : c ≠ b := fun heq => hb (heq ▸ hc)
    have hnone : [c].count b = 0 := List.count_eq_zero.mpr (by simpa using hne.symm)
    change (t.ready ++ [c]).count b ≤ t.ready.count b
    rw [List.count_append, hnone]
    omega
  | _ => exact Nat.le_refl _

/-- What a turn does not make ready is not ready more often than it was. -/
theorem Changes.ready (h : t.Changes u) {b : Branch} (hb : ¬ t.playback.MakesReady b) :
    u.ready.count b ≤ t.ready.count b := by
  have hboth : t.Changes u ∧ u.ready.count b ≤ t.ready.count b := by
    induction h with
    | refl => exact ⟨.refl, Nat.le_refl _⟩
    | tail hchanges hgoes ih =>
      have hnot := fun hready => hb (Changes.makesReady hchanges hready)
      exact ⟨hchanges.tail hgoes, Nat.le_trans (hgoes.2.ready hnot) ih.2⟩
  exact hboth.2

/-- A branch that the turn does not make ready is taken up or ready as often as it was at first. -/
theorem Takes.count_le (h : t.Takes taken u) (ht : t.Straight) {b : Branch}
    (hb : ¬ t.playback.MakesReady b) : taken.count b + u.ready.count b ≤ t.ready.count b := by
  induction h with
  | refl => simp
  | @next taken u c rest h hp hr ih =>
    -- Up to here no branch like it could be made, so none has been added.
    obtain ⟨stops, hworks⟩ := h.exists_works
    have hchanges : t.Changes u := changes_of_works ht hworks
    have htaken : t.Changes ({ u with ready := rest } : Turn β) :=
      hchanges.trans ((Change.taken hr).changes hp)
    have hvisit : u.playback.skipping = true → c.step = .visit :=
      fun hs => hchanges.straight ht hs c (hr ▸ List.mem_cons_self)
    have hadvance := (changes_advance ({ u with ready := rest } : Turn β) c hp hvisit).ready
      fun hready => hb (htaken.makesReady hready)
    have hcount : (({ u with ready := rest } : Turn β).advance c).ready.count b ≤
        rest.count b := hadvance
    rw [hr, List.count_cons] at ih
    rw [List.count_append, List.count_singleton]
    omega

theorem Takes.mem (h : t.Takes taken u) (ht : t.Straight) {b : Branch} (hb : b ∈ taken) :
    b ∈ t.ready ∨ t.playback.MakesReady b := by
  by_cases hready : t.playback.MakesReady b
  · exact Or.inr hready
  · have hcount := h.count_le ht hready
    have hpos := List.count_pos_iff.mpr hb
    exact Or.inl (List.count_pos_iff.mp (by omega))

end Turn

namespace Playback

open Turn

variable {p : Playback β}

/-- The branches that are ready as an operation begins arrive at nodes or are done with them at
once. Only an update finds others, and those have waited until they were due. -/
theorem ready_beginning (p : Playback β) (w : World β) (op : Operation) {b : Branch}
    (hb : b ∈ (p.beginning w op).ready) :
    op.isUpdate = true ∧ (p.beginning w op).ready = p.due w ∨
      op.isUpdate = false ∧ b.wake = .now ∧ b.origin = none := by
  -- A run begins with one branch that arrives from nowhere.
  have hplay : ∀ start queue, b ∈ (p.playBeginning w start queue).ready →
      b.wake = .now ∧ b.origin = none := by
    intro start queue hmem
    unfold playBeginning at hmem
    dsimp only at hmem
    split_ifs at hmem
    · exact absurd hmem List.not_mem_nil
    · exact absurd hmem List.not_mem_nil
    · rw [List.mem_singleton.mp hmem]
      exact ⟨rfl, rfl⟩
  cases op with
  | play start queue => exact Or.inr ⟨rfl, hplay start queue hb⟩
  | skip start =>
    change b ∈ (p.skipBeginning w start).ready at hb
    unfold skipBeginning at hb
    split_ifs at hb
    · exact absurd hb List.not_mem_nil
    · rw [List.mem_singleton.mp hb]
      exact Or.inr ⟨rfl, rfl, rfl⟩
  | resume start points parameters rerun =>
    change b ∈ (p.resumeBeginning w start points parameters rerun).ready at hb
    unfold resumeBeginning at hb
    by_cases hp : points = []
    · rw [if_pos hp] at hb
      exact Or.inr ⟨rfl, hplay start true hb⟩
    · rw [if_neg hp] at hb
      dsimp only at hb
      split_ifs at hb
      · exact absurd hb List.not_mem_nil
      · obtain ⟨point, -, rfl⟩ := List.mem_map.mp hb
        exact Or.inr ⟨rfl, rfl, rfl⟩
  | update =>
    change b ∈ (p.updateBeginning w).ready at hb
    change _ ∧ (p.updateBeginning w).ready = _ ∨ _
    unfold updateBeginning at hb ⊢
    split_ifs at hb ⊢
    · exact absurd hb List.not_mem_nil
    · exact absurd hb List.not_mem_nil
    · exact absurd hb List.not_mem_nil
    · exact absurd hb List.not_mem_nil
    · exact absurd hb List.not_mem_nil
    · -- An update takes up what is due.
      exact Or.inl ⟨rfl, rfl⟩
  | _ => exact absurd hb List.not_mem_nil

/-- What an operation takes up in its course. -/
structure TakesUp (p : Playback β) (w : World β) (op : Operation) (taken : List Branch) : Prop where
  /-- What waits is taken up by an update, and not more often than it waits. -/
  waiting : ∀ b, b.wake ≠ .now → taken.count b ≤ if op.isUpdate then (p.due w).count b else 0
  /-- Anything else is taken up as soon as it has come up. Unless nodes are skipped, a node only
  leads back to itself in this way if it is the first one and starts its own graph again. -/
  others : ∀ b ∈ taken, op.isUpdate = true ∧ b ∈ p.due w ∨
    b.wake = .now ∧ ((p.beginning w op).playback.skipping = false → b.origin = some b.index →
      b.index = 0 ∧ ∃ n, p.nodes[0]? = some n ∧ Ending.start p.graph ∈ n.endings)

/-- However far an operation has come, what it has taken up had become due, or has come up since. -/
theorem takesUp_of_takes (hs : p.skipping = false) {w : World β} {op : Operation}
    {taken : List Branch} {u : Turn β} (h : (p.beginning w op).Takes taken u) :
    p.TakesUp w op taken := by
  have hstraight := straight_beginning hs w op
  refine ⟨fun b hb => ?_, fun b hb => ?_⟩
  · have hcount := h.count_le hstraight fun hready => hb hready.now
    by_cases hmem : b ∈ (p.beginning w op).ready
    · rcases p.ready_beginning w op hmem with ⟨hu, hdue⟩ | ⟨-, hnow, -⟩
      · rw [if_pos hu, ← hdue]
        omega
      · exact absurd hnow hb
    · rw [List.count_eq_zero.mpr hmem] at hcount
      omega
  · rcases h.mem hstraight hb with hmem | hready
    · rcases p.ready_beginning w op hmem with ⟨hu, hdue⟩ | ⟨-, hnow, hnone⟩
      · exact Or.inl ⟨hu, hdue ▸ hmem⟩
      · exact Or.inr ⟨hnow, fun _ horigin => by simp [hnone] at horigin⟩
    · refine Or.inr ⟨hready.now, fun hskip horigin => ?_⟩
      obtain ⟨hindex, n, hn, hstart⟩ := hready.returns hskip horigin
      -- The operation begins with the same graph and the same endings.
      have hgraph : (p.beginning w op).playback.graph = p.graph :=
        congrArg Identity.graph (p.identity_beginning w op)
      have hat := congrArg (·[0]?) (traits_beginning Node.fixed_endings.toLasting p w op)
      simp only [List.getElem?_map, hn, Option.map_some] at hat
      obtain ⟨m, hm, hsame⟩ := Option.map_eq_some_iff.mp hat.symm
      refine ⟨hindex, m, hm, ?_⟩
      rw [hsame]
      exact hgraph ▸ hstart

end Playback

end Cutscene
