import Cutscene.Proofs.Engine.Equations
import Cutscene.Proofs.Playback.Course

/-!
# Fuel

What takes fuel is `Steady` if more fuel than it needs does not change the answer. A run of a turn
is steady, and so is what an engine makes of runs one after the other: applying a command
(`Engine.steady_apply`) and applying all that wait (`Engine.steady_flush`). So one amount of fuel is
enough for several things that have an answer each, and there is one answer at most.
-/

namespace Cutscene

/-- More fuel than an answer needs does not change it. -/
def Steady {α : Type} (f : Nat → Option α) : Prop :=
  ∀ ⦃fuel fuel' : Nat⦄ ⦃a : α⦄, f fuel = some a → fuel ≤ fuel' → f fuel' = some a

namespace Steady

variable {α γ : Type} {f : Nat → Option α}

theorem const (a : Option α) : Steady fun _ => a := fun _ _ _ h _ => h

theorem bind (hf : Steady f) {g : Nat → α → Option γ} (hg : ∀ a, Steady fun fuel => g fuel a) :
    Steady fun fuel => (f fuel).bind (g fuel) := by
  intro fuel fuel' c h hle
  obtain ⟨a, ha, hc⟩ := Option.bind_eq_some_iff.mp h
  exact Option.bind_eq_some_iff.mpr ⟨a, hf ha hle, hg a hc hle⟩

theorem map (hf : Steady f) (g : α → γ) : Steady fun fuel => (f fuel).map g := by
  intro fuel fuel' c h hle
  obtain ⟨a, ha, rfl⟩ := Option.map_eq_some_iff.mp h
  exact Option.map_eq_some_iff.mpr ⟨a, hf ha hle, rfl⟩

theorem unique (hf : Steady f) {fuel fuel' : Nat} {a a' : α} (h : f fuel = some a)
    (h' : f fuel' = some a') : a' = a := by
  have hmax := hf h (Nat.le_max_left fuel fuel')
  have hmax' := hf h' (Nat.le_max_right fuel fuel')
  exact Option.some.inj (hmax'.symm.trans hmax)

end Steady

variable {β : Type} [Behaviour β]

theorem Playback.steady_perform (p : Playback β) (w : World β) (op : Operation) :
    Steady fun fuel => p.perform fuel w op := by
  intro fuel fuel' r h hle
  simp only [perform_eq] at h ⊢
  exact Turn.run_mono h hle

namespace Engine

theorem steady_begin (e : Engine β) (graph : String) (trigger : Trigger) :
    Steady fun fuel => e.begin fuel graph trigger := by
  unfold begin
  by_cases hg : (!e.graphs.contains graph) = true
  · -- To refuse takes no fuel.
    simp only [hg, if_true]
    exact .const _
  · simp only [hg]
    by_cases hd : (!e.isEnabled graph) = true
    · simp only [hd, if_true]
      exact .const _
    · simp only [hd]
      cases hs : e.spawn graph with
      | error error => exact .const _
      | ok s =>
        dsimp only
        cases hp : s.1.instance? s.2 with
        | none => exact .const _
        | some p =>
          have hact := (trigger.brief p).steady_perform
            (s.1.world.noticeAll (override p.parameters trigger.parameters).2) (trigger.operation p)
          have hput := hact.map fun r => (s.1.put r, (Except.ok s.2 : Except EngineError Nat))
          -- The trigger either skips or plays, whatever the fuel.
          unfold Trigger.operation at hput
          by_cases hskip : trigger.skip = true
          · simp only [hskip, if_true] at hput ⊢
            exact hput
          · simp only [hskip] at hput ⊢
            exact hput

theorem steady_resumeRecord (e : Engine β) (id : Nat) (r : Record) (rerun : Bool) :
    Steady fun fuel => e.resumeRecord fuel id r rerun := by
  unfold resumeRecord
  cases hp : e.instance? id with
  | none => exact .const _
  | some p =>
    exact (p.steady_perform e.world (.resume r.start r.resumePoints r.parameters rerun)).map _

theorem steady_resumeAttached (e : Engine β) (rerun : Bool) (records : List Record) :
    Steady fun fuel => e.resumeAttached fuel rerun records := by
  induction records generalizing e with
  | nil => exact .const _
  | cons r rest ih =>
    simp only [resumeAttached]
    cases hid : r.playback with
    | none => exact ih e
    | some id =>
      refine (e.steady_resumeRecord id r rerun).bind fun s => ?_
      exact (ih s.1).bind fun _ => .const _

theorem steady_resumeDetached (e : Engine β) (rerun : Bool) (graph : String) (count : Nat) :
    Steady fun fuel => resumeDetached fuel rerun graph count e := by
  induction count generalizing e with
  | zero => exact .const _
  | succ count ih =>
    simp only [resumeDetached]
    cases hr : e.world.registry.detachedPaused? graph with
    | none => exact .const _
    | some r =>
      dsimp only
      cases hs : (e.withRegistry (e.world.registry.dropDetachedPaused graph)).spawn graph with
      | error error => exact .const _
      | ok s =>
        refine (steady_resumeRecord _ s.2 r rerun).bind fun s => ?_
        exact (ih s.1).bind fun _ => .const _

theorem steady_resumePausedNow (e : Engine β) (graph : String) (rerun : Bool) :
    Steady fun fuel => e.resumePausedNow fuel graph rerun := by
  by_cases hg : e.graphs.contains graph = true
  · simp only [resumePausedNow_of_contains hg]
    refine (e.steady_resumeAttached rerun _).bind fun s => ?_
    exact (s.1.steady_resumeDetached rerun graph _).map _
  · unfold resumePausedNow
    simp only [hg, Bool.not_false, if_true]
    exact .const _

theorem steady_skipRunning (e : Engine β) (ids : List Nat) :
    Steady fun fuel => e.skipRunning fuel ids := by
  induction ids generalizing e with
  | nil => exact .const _
  | cons id rest ih =>
    simp only [skipRunning]
    cases hp : e.instance? id with
    | none => exact ih e
    | some p =>
      dsimp only
      by_cases hrun : p.isRunning = true
      · simp only [hrun, if_true]
        exact (p.steady_perform e.world (.skip p.start)).bind fun r => ih (e.put r)
      · simp only [hrun]
        exact ih e

theorem steady_apply (e : Engine β) (command : Command) :
    Steady fun fuel => e.apply fuel command := by
  cases command with
  | start graph start queue skip =>
    exact (e.steady_begin graph _).bind fun _ => .const _
  | kill graph => exact .const _
  | pause graph => exact .const _
  | resume graph rerun => exact (e.steady_resumePausedNow graph rerun).bind fun _ => .const _
  | skip graph => exact e.steady_skipRunning _

theorem steady_flush (budget : Nat) (batch : List Command) (e : Engine β) :
    Steady fun fuel => flush fuel budget batch e := by
  induction budget generalizing batch e with
  | zero => exact .const _
  | succ budget ih =>
    simp only [flush]
    rcases e.takeUp batch with ⟨e₁, _ | ⟨command, rest⟩⟩
    · exact .const _
    · exact (steady_apply e₁ command).bind (ih rest)

end Engine

end Cutscene
