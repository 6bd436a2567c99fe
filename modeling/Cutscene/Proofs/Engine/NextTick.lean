import Cutscene.Proofs.Engine.Consistent
import Cutscene.Proofs.Engine.History
import Cutscene.Proofs.Playback.Taking

/-!
# What a tick takes up

A tick updates every instance that was there at its beginning, one after the other, and applies
after each the commands that have come up. An instance is updated once, in its turn, so what begins
to wait in its turn or later is not taken up before the next tick. But what an instance waits for in
its turn is not always what it waited for when the tick began: commands of those before it may have
had it do something else in between (`Engine.LeftMeanwhile`), and what that has left waiting for the
next tick is taken up in this one.
-/

namespace Cutscene.Engine

variable {β : Type} [Behaviour β]

/-- What happens while commands are applied and other instances than one are updated. -/
def Sparing (id : Nat) (e : Engine β) (d : Deed β) : Prop :=
  Ordinary Triggered e d ∧ ∀ p op, d = .act p op → p.id = id → op.isUpdate = false

/-- On the way from one engine to another, commands have had an instance do something that has left
a branch waiting. -/
def LeftMeanwhile (e e' : Engine β) (id : Nat) (b : Branch) : Prop :=
  ∃ (a a' : Engine β) (p q : Playback β) (op : Playback.Operation), Does (Sparing id) e a ∧
    Doing a (.act p op) a' ∧ p.id = id ∧ op.isUpdate = false ∧ b ∉ p.pending ∧
    a'.instance? id = some q ∧ b ∈ q.pending ∧ Does (Sparing id) a' e'

variable {e e' : Engine β} {fuel id : Nat}

theorem Does.sparing {ids : List Nat} (h : Does (Ticking ids) e e') (hid : id ∉ ids) :
    Does (Sparing id) e e' :=
  h.mono fun _ d hd => ⟨hd.1, fun p op hact hpid => by
    by_contra hu
    exact hid (hpid ▸ hd.2 p op hact (by simpa using hu))⟩

/-- What an instance waits for it has waited for all along, or commands have made it wait. -/
theorem Does.pending (h : Does (Sparing id) e e') (hl : e.Linked) {q : Playback β}
    (hq : e'.instance? id = some q) {b : Branch} (hb : b ∈ q.pending) :
    (∃ p, e.instance? id = some p ∧ b ∈ p.pending) ∨ LeftMeanwhile e e' id b := by
  induction h generalizing q with
  | refl => exact Or.inl ⟨q, hq, hb⟩
  | @tail a c hfirst hone ih =>
    obtain ⟨d, hspares, hdoing⟩ := hone
    have hqid : q.id = id := instance?_id hq
    -- What has been waiting before the last deed is accounted for.
    have hbefore : ∀ {p : Playback β}, a.instance? id = some p → b ∈ p.pending →
        (∃ p, e.instance? id = some p ∧ b ∈ p.pending) ∨ LeftMeanwhile e c id b := by
      intro p hp hmem
      refine (ih hp hmem).imp_right ?_
      rintro ⟨a₁, a₂, p₁, q₁, op, hd₁, hact, hpid, hu, hnot, hq₁, hmem₁, hd₂⟩
      exact ⟨a₁, a₂, p₁, q₁, op, hd₁, hact, hpid, hu, hnot, hq₁, hmem₁,
        hd₂.tail ⟨d, hspares, hdoing⟩⟩
    rcases hdoing.mem_instances (mem_instances_of_instance? hq) with
      ⟨p, op, rfl, hdid⟩ | ⟨p, hp, hstays⟩ | hmade
    · have hpid : p.id = id := hdid.sameMake.id.symm.trans hqid
      by_cases hmem : b ∈ p.pending
      · exact hbefore (hpid ▸ hdid.instance?) hmem
      · exact Or.inr ⟨a, c, p, q, op, hfirst, hdoing, hpid, hspares.2 p op rfl hpid, hmem, hq, hb,
          .refl⟩
    · have hpid : p.id = id := hstays.id.symm.trans hqid
      have hp' := (hl.does hfirst).tables.instance?_eq_some hp
      rw [hpid] at hp'
      exact hbefore hp' (hstays.pending b hb)
    · rw [hmade.pending] at hb
      exact absurd hb List.not_mem_nil

/-- An instance that is made in the course of a tick is not updated in it. -/
theorem tick_of_absent {nanoseconds : Nat} (ht : e.tick fuel nanoseconds = some e')
    (hid : id ∉ e.instances.map (·.id)) : Does (Sparing id) (e.advanced nanoseconds) e' := by
  obtain ⟨e₁, h₁, rfl⟩ := tick_cases ht
  have hcollect : Does (Commanded Triggered) e₁ e₁.collect := does_collect e₁
  exact ((ticks_updateAll h₁).sparing hid).trans ((hcollect.undue.ticking []).sparing (by simp))

/-- Any other instance is updated once. -/
theorem tick_of_present {nanoseconds : Nat} (ht : e.tick fuel nanoseconds = some e')
    {before after : List Nat} (hids : e.instances.map (·.id) = before ++ id :: after)
    (hnodup : (e.instances.map (·.id)).Nodup) :
    ∃ e₁ e₂, (e.advanced nanoseconds).updateAll fuel before = some e₁ ∧
      Does (Sparing id) (e.advanced nanoseconds) e₁ ∧ e₁.updateOne fuel id = some e₂ ∧
      Does (Sparing id) e₂ e' := by
  rw [hids] at hnodup
  have hbefore : id ∉ before := fun hmem =>
    (List.nodup_append.mp hnodup).2.2 id hmem id List.mem_cons_self rfl
  have hafter : id ∉ after := (List.nodup_cons.mp (List.nodup_append.mp hnodup).2.1).1
  obtain ⟨e₄, h₄, rfl⟩ := tick_cases ht
  rw [hids, updateAll_append] at h₄
  obtain ⟨e₁, h₁, h₄⟩ := Option.bind_eq_some_iff.mp h₄
  rw [updateAll_cons] at h₄
  obtain ⟨e₂, h₂, h₄⟩ := Option.bind_eq_some_iff.mp h₄
  obtain ⟨e₃, h₃, h₄⟩ := Option.bind_eq_some_iff.mp h₄
  have hcollect : Does (Commanded Triggered) e₄ e₄.collect := does_collect e₄
  refine ⟨e₁, e₂, h₁, (ticks_updateAll h₁).sparing hbefore, h₂, ?_⟩
  have hrest := (((undue_flushAll h₃).ticking after).trans (ticks_updateAll h₄)).trans
    (hcollect.undue.ticking after)
  exact Does.sparing hrest hafter

/-- In a tick an instance takes up what waits in its turn and at no other time, and nothing more
often than it waits; in a turn of its own, a node does not lead back to itself at once unless nodes
are skipped or it starts its graph again. What it waits for in its turn has waited since before the
tick, or has been left there in the course of the tick by commands of the instances before it.
Whatever begins to wait later on is taken up by the next tick at the earliest. -/
theorem takes_up_in_turn (h : e.Handled) {nanoseconds : Nat}
    (ht : e.tick fuel nanoseconds = some e') (id : Nat) :
    (e.instance? id = none → Does (Sparing id) (e.advanced nanoseconds) e') ∧
    (∀ p, e.instance? id = some p → ∃ before after e₁ e₂,
      e.instances.map (·.id) = before ++ id :: after ∧
      (e.advanced nanoseconds).updateAll fuel before = some e₁ ∧
      Does (Sparing id) (e.advanced nanoseconds) e₁ ∧
      e₁.updateOne fuel id = some e₂ ∧ Does (Sparing id) e₂ e' ∧
      ∀ q, e₁.instance? id = some q → ∀ b ∈ q.pending,
        b ∈ p.pending ∨ LeftMeanwhile (e.advanced nanoseconds) e₁ id b) ∧
    ∀ a, Does (fun _ _ => True) e a → ∀ q ∈ a.instances, ∀ parameters conversation w op taken u,
      (({ q with parameters, conversation } : Playback β).beginning w op).Takes taken u →
      ({ q with parameters, conversation } : Playback β).TakesUp w op taken := by
  have hlinked := h.linked
  refine ⟨fun hnone => tick_of_absent ht fun hmem => ?_, fun p hp => ?_, ?_⟩
  · obtain ⟨q, hq, rfl⟩ := List.mem_map.mp hmem
    rw [hlinked.tables.instance?_eq_some hq] at hnone
    exact absurd hnone (by simp)
  · have hmem : id ∈ e.instances.map (·.id) :=
      List.mem_map.mpr ⟨p, mem_instances_of_instance? hp, instance?_id hp⟩
    obtain ⟨before, after, hids⟩ := List.append_of_mem hmem
    obtain ⟨e₁, e₂, h₁, hd₁, h₂, hd₂⟩ := tick_of_present ht hids hlinked.tables.ids
    refine ⟨before, after, e₁, e₂, hids, h₁, hd₁, h₂, hd₂, fun q hq b hb => ?_⟩
    have hadvanced : (e.advanced nanoseconds).Linked := hlinked.beside rfl rfl rfl
    rcases hd₁.pending hadvanced hq hb with ⟨p', hp', hmem'⟩ | hleft
    · -- To let time pass does not change what waits.
      obtain rfl : p' = p := Option.some.inj (hp'.symm.trans hp)
      exact Or.inl hmem'
    · exact Or.inr hleft
  · intro a hd q hq parameters conversation w op taken u hu
    have hnot : q.skipping = false := (hlinked.does hd).notSkipping q hq
    exact Playback.takesUp_of_takes (p := { q with parameters, conversation }) hnot hu

/-- A kind of nodes that start the circle at its second node. -/
def callKind : NodeKind Builtin where
  name := "call"
  validate _ := .ok ()
  prepare _ := .ok (.runGraph ⟨"circle", 1, false⟩)

/-- A graph that starts the circle again at every tick. -/
def caller : Graph where
  id := "caller"
  name := "caller"
  nodes := [{ kind := "echo" }, { kind := "call", endings := [.goto 1] }]

/-- The branches of an instance that wait for the next tick. -/
def awaiting (e : Engine β) (id : Nat) : List Branch :=
  match e.instance? id with
  | none => []
  | some p => p.pending.filter (·.wake = .nextTick false)

/-- The circle has been called and paused, so that nothing of it waits. It is called once more
before its turn. -/
theorem reachable_calling : ∃ (e e₁ e' : Engine Builtin), Reachable (fun _ => True) e ∧
    e.instances.map (·.id) = [0, 1] ∧ (e.advanced 0).updateAll 9 [0] = some e₁ ∧
    e.tick 9 0 = some e' ∧ (∃ p, e.instance? 1 = some p ∧ p.pending = []) ∧
    e₁.awaiting 1 ≠ [] ∧ (e.world.runsOf 1).map (·.1) = [1] ∧
    (e'.world.runsOf 1).map (·.1) = [1, 1, 1] := by
  have hruns : ((((ofKinds {} [echo, callKind]).register circle).register caller).perform 9
      (.trigger "caller" { start := some 1 })).bind (fun e =>
        (e.perform 9 (.pause 1)).bind fun e => ((e.advanced 0).updateAll 9 [0]).bind fun e₁ =>
          (e.tick 9 0).map fun e' => (e.instances.map (·.id),
            (e.instance? 1).map (·.pending.length), (e₁.awaiting 1).length,
            (e.world.runsOf 1).map (·.1), (e'.world.runsOf 1).map (·.1))) =
      some ([0, 1], some 0, 1, [1], [1, 1, 1]) := by
    decide +kernel
  simp only [Option.bind_eq_some_iff, Option.map_eq_some_iff, Prod.mk.injEq] at hruns
  obtain ⟨e₀, h₀, e, h, e₁, h₁, e', ht, hids, ⟨p, hp, hnone⟩, hawaits, hbefore, hafter⟩ := hruns
  have hregistered : Reachable (fun _ => True)
      (((ofKinds {} [echo, callKind]).register circle).register caller) :=
    ((Reachable.start {} [echo, callKind]).register circle trivial).register caller trivial
  refine ⟨e, e₁, e', (hregistered.perform trivial h₀).perform trivial h, hids, h₁, ht,
    ⟨p, hp, List.length_eq_zero_iff.mp hnone⟩, ?_, hbefore, hafter⟩
  exact List.ne_nil_of_length_pos (by omega)

/-- The node of the circle is run twice in one tick, first because the circle is called, and then in
its turn, since it has been left waiting by the call. -/
theorem takes_up_in_turn_calling : ∃ (e e₁ e' : Engine Builtin) (b : Branch),
    e.Handled ∧ e.tick 9 0 = some e' ∧ (e.world.runsOf 1).map (·.1) = [1] ∧
    (e'.world.runsOf 1).map (·.1) = [1, 1, 1] ∧ b.wake = .nextTick false ∧
    LeftMeanwhile (e.advanced 0) e₁ 1 b ∧
    ∃ e₂, e₁.updateOne 9 1 = some e₂ ∧ Does (Sparing 1) e₂ e' := by
  obtain ⟨e, e₁, e', he, hids, h₁, ht, ⟨p, hp, hnone⟩, hawaits, hbefore, hafter⟩ :=
    reachable_calling
  obtain ⟨-, hturn, -⟩ := takes_up_in_turn he.handled ht 1
  obtain ⟨before, after, a₁, e₂, hsplit, ha₁, -, h₂, hd₂, hpending⟩ := hturn p hp
  -- Only the caller comes before the circle.
  have hfirst : before = [0] := by
    rw [hids] at hsplit
    cases before with
    | nil => simp at hsplit
    | cons id rest =>
      cases rest with
      | nil => simp_all
      | cons _ _ => simp at hsplit
  obtain rfl : a₁ = e₁ := by
    rw [hfirst, h₁] at ha₁
    exact (Option.some.inj ha₁).symm
  obtain ⟨b, hb⟩ := List.exists_mem_of_ne_nil _ hawaits
  unfold awaiting at hb
  cases hq : a₁.instance? 1 with
  | none => simp [hq] at hb
  | some q =>
    simp only [hq] at hb
    obtain ⟨hmem, hwake⟩ := List.mem_filter.mp hb
    rcases hpending q hq b hmem with hold | hleft
    · rw [hnone] at hold
      exact absurd hold List.not_mem_nil
    · exact ⟨e, a₁, e', b, he.handled, ht, hbefore, hafter, by simpa using hwake, hleft, e₂, h₂,
        hd₂⟩

end Cutscene.Engine
