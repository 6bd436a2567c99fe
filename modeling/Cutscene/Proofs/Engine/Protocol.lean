import Cutscene.Proofs.Engine.Consistent
import Cutscene.Proofs.Playback.Protocol

/-!
# The events of an engine

All that observers hear of an instance, from the first event on, follows the protocol of
`Activity.next`, and the protocol always knows what the instance does: `Engine.Follows` holds at the
start and every move keeps it. What is heard comes from the acts of the instances one by one
(`eventsOf_course`), so that what holds of a single act holds of the whole.
`protocol_of_reachable` puts this together for engines whose records are not reset.
-/

namespace Cutscene

variable {β : Type}

/-- What observers hear of a playback while an instance does something. -/
def Act.news (a : Act β) (id : Nat) : List Event.Kind := a.world.news a.result.2 id

namespace Engine

/-- What an instance does. One that is gone, or not there yet, does nothing. -/
def activityOf (e : Engine β) (id : Nat) : Activity :=
  ((e.instance? id).map (·.phase.activity)).getD .inactive

/-- The protocol accepts what has been heard of every instance, and knows what it does. -/
def Follows (e : Engine β) : Prop :=
  ∀ id, Activity.inactive.after (e.world.eventsOf id) = some (e.activityOf id)

/-- The events of an engine in which certain acts took place. -/
structure KeepsProtocol (e : Engine β) (acts : List (Act β)) : Prop where
  /-- Everything heard of an instance comes from its own acts, in their order. -/
  events : ∀ id, e.world.eventsOf id = acts.flatMap (·.news id)
  own : ∀ a ∈ acts, ∀ id, id ≠ a.playback.id → a.news id = []
  /-- The conversation that is set when the instance acts is due after each end that is not forced,
  and at no other time. -/
  announces : ∀ a ∈ acts, Announces a.playback.conversation (a.news a.playback.id)
  only : ∀ id, OnlyAfterEnds (e.world.eventsOf id)
  accepted : e.Follows
  atMostOneEnd : ∀ id part, part <+: e.world.eventsOf id →
    part.countP (·.isEnd) ≤ Activity.inactive.activations part ∧
      Activity.inactive.activations part ≤ part.countP (·.isEnd) + 1
  exactlyOneEnd : ∀ id, e.activityOf id = .inactive →
    Activity.inactive.activations (e.world.eventsOf id) =
      (e.world.eventsOf id).countP (·.isEnd)

/-! ### What instances do in a move -/

theorem activityOf_of_instance? {e : Engine β} {id : Nat} {p : Playback β}
    (h : e.instance? id = some p) : e.activityOf id = p.phase.activity := by
  rw [activityOf, h]
  rfl

theorem activityOf_of_none {e : Engine β} {id : Nat} (h : e.instance? id = none) :
    e.activityOf id = .inactive := by
  rw [activityOf, h]
  rfl

theorem activityOf_put {e : Engine β} {p : Playback β} (hp : e.instance? p.id = some p)
    {r : Playback β × World β} (hid : r.1.id = p.id) (id : Nat) :
    (e.put r).activityOf id = if p.id = id then r.1.phase.activity else e.activityOf id := by
  unfold activityOf
  rw [instance?_put]
  split_ifs with h
  · subst h
    rw [hp, Option.map_some, if_pos hid.symm]
    rfl
  · cases hq : e.instance? id with
    | none => rfl
    | some q =>
      have hne : q.id ≠ r.1.id := by
        rw [instance?_id hq, hid]
        exact Ne.symm h
      rw [Option.map_some, if_neg hne]

theorem activityOf_create (e : Engine β) (edition : Edition) (nodes : List (Node β)) (id : Nat) :
    (e.create edition nodes).1.activityOf id = e.activityOf id := by
  unfold activityOf instance? create
  rw [List.find?_append]
  cases e.instances.find? (·.id = id) with
  | some p => rfl
  | none =>
    rw [Option.none_or, List.find?_singleton]
    split_ifs <;> rfl

theorem Coherent.activityOf_sweep {e : Engine β} (h : e.Coherent) {keep : Playback β → Bool}
    (hk : ∀ p ∈ e.instances, keep p = false → e.IsIdle p) (id : Nat) :
    ({ e with instances := e.instances.filter keep } : Engine β).activityOf id =
      e.activityOf id := by
  have hmem : ∀ p ∈ e.instances, keep p = true →
      p ∈ ({ e with instances := e.instances.filter keep } : Engine β).instances :=
    fun p hp hkeep => List.mem_filter.mpr ⟨hp, hkeep⟩
  cases hp : e.instance? id with
  | none =>
    have hnone : ({ e with instances := e.instances.filter keep } : Engine β).instance? id =
        none := by
      simp only [instance?, List.find?_eq_none] at hp ⊢
      exact fun q hq => hp q (List.mem_of_mem_filter hq)
    rw [activityOf_of_none hnone, activityOf_of_none hp]
  | some p =>
    have hpmem := mem_instances_of_instance? hp
    rw [activityOf_of_instance? hp]
    cases hkeep : keep p with
    | true =>
      have hfind := (h.sweep hk).instance?_eq_some (hmem p hpmem hkeep)
      rw [instance?_id hp] at hfind
      exact activityOf_of_instance? hfind
    | false =>
      -- An instance that is swept out was inactive, and no other has its id.
      have hnone : ({ e with instances := e.instances.filter keep } : Engine β).instance? id =
          none := by
        simp only [instance?, List.find?_eq_none, decide_eq_true_eq]
        intro q hq hid
        obtain ⟨hq, hqkeep⟩ := List.mem_filter.mp hq
        have hfind := h.instance?_eq_some hq
        rw [hid, hp] at hfind
        obtain rfl := Option.some.inj hfind
        simp [hkeep] at hqkeep
      rw [activityOf_of_none hnone]
      rcases hk p hpmem hkeep with hphase | ⟨hphase, -⟩ <;> rw [hphase] <;> rfl

variable [Behaviour β] {e e' : Engine β} {acts : List (Act β)}

/-- What observers hear of an act, and what it makes of the instance. -/
theorem heard_of_perform {fuel : Nat} {p : Playback β} {w : World β} {op : Playback.Operation}
    {r : Playback β × World β} (hop : op.isReset = false) (hr : p.perform fuel w op = some r) :
    ∃ kinds, Playback.Heard (p, w) r kinds :=
  Playback.heard_of_stages (Playback.stages_perform hop hr)

theorem Follows.move (h : e.Follows) (hc : e.Coherent) (hm : Move e acts e') : e'.Follows := by
  intro id
  cases hm with
  | @act p fuel op r hp hop hr =>
    obtain ⟨kinds, hevents, hafter, -⟩ := heard_of_perform hop hr
    have hlive : Playback.IsLive p e.world := (hc.agrees_of_instance? hp).isLive_iff.mpr
    have hid : r.1.id = p.id := (Playback.stages_perform hop hr).id_eq
    have hworld : (e.put r).world.eventsOf id = r.2.eventsOf id := rfl
    rw [hworld, hevents, activityOf_put hp hid, Activity.after_append (h id)]
    -- Only the instance that acts is heard of, and only what it does changes.
    by_cases hne : p.id = id
    · rw [if_pos hne, if_pos hne, ← hne, activityOf_of_instance? hp]
      exact hafter hlive
    · rw [if_neg hne, if_neg hne]
      rfl
  | @adjust p p' hp ha =>
    rw [activityOf_put hp ha.id]
    split_ifs with hid
    · rw [ha.phase, ← activityOf_of_instance? hp, hid]
      exact h id
    · exact h id
  | around hr he =>
    have hevents := h id
    rw [← he id] at hevents
    exact hevents
  | trim ht => exact h id
  | shelve hget => exact h id
  | create edition ha =>
    rw [activityOf_create]
    exact h id
  | sweep hk =>
    rw [hc.activityOf_sweep hk]
    exact h id
  | reload hnone hr => exact h id

theorem Follows.course (h : e.Follows) (hc : e.Coherent) (hcourse : Course e acts e') :
    e'.Follows := by
  induction hcourse with
  | refl => exact h
  | tail hcourse hm ih => exact ih.move (hc.course hcourse) hm

omit [Behaviour β] in
theorem follows_ofKinds (config : Config) (kinds : List (NodeKind β)) :
    (ofKinds config kinds).Follows :=
  fun _ => rfl

/-! ### The acts of a course -/

/-- Each act of a course is something that a playback can do, short of resetting its record. -/
theorem perform_of_mem_course (h : Course e acts e') :
    ∀ a ∈ acts, a.operation.isReset = false ∧
      ∃ fuel, a.playback.perform fuel a.world a.operation = some a.result := by
  induction h with
  | refl => exact fun a ha => absurd ha List.not_mem_nil
  | tail _ hm ih =>
    intro a ha
    rcases List.mem_append.mp ha with ha | ha
    · exact ih a ha
    · cases hm with
      | @act p fuel op r hp hop hr =>
        rw [List.mem_singleton.mp ha]
        exact ⟨hop, fuel, hr⟩
      | _ => exact absurd ha List.not_mem_nil

omit [Behaviour β] in
theorem news_of_heard {a : Act β} {kinds : List Event.Kind}
    (h : Playback.Heard (a.playback, a.world) a.result kinds) (id : Nat) :
    a.news id = if a.playback.id = id then kinds else [] :=
  World.news_of_eventsOf_eq_append (h.events id)

/-- What has been heard of an instance in a course is what has been heard of its acts. -/
theorem eventsOf_course (h : Course e acts e') (id : Nat) :
    e'.world.eventsOf id = e.world.eventsOf id ++ acts.flatMap (·.news id) := by
  induction h with
  | refl => simp
  | tail _ hm ih =>
    rw [List.flatMap_append, ← List.append_assoc, ← ih]
    cases hm with
    | @act p fuel op r hp hop hr =>
      obtain ⟨kinds, hheard⟩ := heard_of_perform hop hr
      rw [List.flatMap_singleton, news_of_heard hheard]
      exact hheard.events id
    | around hr he =>
      rw [List.flatMap_nil, List.append_nil]
      exact he id
    | _ => exact (List.append_nil _).symm

omit [Behaviour β] in
theorem onlyAfterEnds_flatMap {id : Nat} (h : ∀ a ∈ acts, OnlyAfterEnds (Act.news a id)) :
    OnlyAfterEnds (acts.flatMap (·.news id)) := by
  induction acts with
  | nil => exact fun i c hi => by simp at hi
  | cons a rest ih =>
    rw [List.flatMap_cons]
    refine (h a List.mem_cons_self).append (ih fun b hb => ?_)
    exact h b (List.mem_cons_of_mem a hb)

theorem Reachable.course {allowed : Operation β → Prop} (h : Reachable allowed e)
    (ha : ∀ op, allowed op → op.isReset = false) :
    ∃ config kinds acts, Course (ofKinds config kinds) acts e := by
  induction h with
  | start config kinds => exact ⟨config, kinds, [], .refl⟩
  | perform _ hop hr ih =>
    obtain ⟨config, kinds, acts, hcourse⟩ := ih
    obtain ⟨more, hmore⟩ : Moves _ _ := moves_perform (ha _ hop) hr
    exact ⟨config, kinds, acts ++ more, hcourse.trans hmore⟩

/-- Whatever an engine has come from, in whichever acts, what observers hear of every instance
follows the protocol, and conversations are announced when they should be. -/
theorem Course.keepsProtocol {config : Config} {kinds : List (NodeKind β)}
    (h : Course (ofKinds config kinds) acts e) : e.KeepsProtocol acts := by
  have hfollows := (follows_ofKinds config kinds).course (coherent_ofKinds config kinds) h
  have hevents : ∀ id, e.world.eventsOf id = acts.flatMap (·.news id) := eventsOf_course h
  have hheard : ∀ a ∈ acts, ∃ kinds, Playback.Heard (a.playback, a.world) a.result kinds := by
    intro a ha
    obtain ⟨hop, fuel, hr⟩ := perform_of_mem_course h a ha
    exact heard_of_perform hop hr
  have hown : ∀ a ∈ acts, ∀ id, id ≠ a.playback.id → a.news id = [] := by
    intro a ha id hid
    obtain ⟨kinds, hkinds⟩ := hheard a ha
    rw [news_of_heard hkinds, if_neg (Ne.symm hid)]
  have hannounces : ∀ a ∈ acts, Announces a.playback.conversation (a.news a.playback.id) := by
    intro a ha
    obtain ⟨kinds, hkinds⟩ := hheard a ha
    rw [news_of_heard hkinds, if_pos rfl]
    exact hkinds.announces
  refine ⟨hevents, hown, hannounces, fun id => ?_, hfollows, fun id part hpart => ?_,
    fun id hinactive => ?_⟩
  · -- An act begins with no conversation, so none can follow the events of another act.
    rw [hevents]
    refine onlyAfterEnds_flatMap fun a ha => ?_
    by_cases hid : id = a.playback.id
    · rw [hid]
      exact (hannounces a ha).only
    · rw [hown a ha id hid]
      exact fun i c hi => by simp at hi
  · -- The balance of what has been heard up to then leaves at most one activation open.
    obtain ⟨a, hafter⟩ := Activity.after_of_isPrefix (hfollows id) hpart
    have hcount := Activity.activations_eq hafter
    rw [Activity.unclosed_inactive] at hcount
    have hle := a.unclosed_le_one
    omega
  · have hcount := Activity.activations_eq (hfollows id)
    rw [hinactive, Activity.unclosed_inactive] at hcount
    exact hcount

/-- As long as no record is reset, an engine has come about in a course of acts, and in every such
course what observers hear of each instance follows the protocol, and each act announces the
conversation that is set when the act begins, if it is to be announced. -/
theorem protocol_of_reachable (h : Reachable (fun op => op.isReset = false) e) :
    (∃ config kinds acts, Course (ofKinds config kinds) acts e) ∧
      ∀ config kinds acts, Course (ofKinds config kinds) acts e → e.KeepsProtocol acts :=
  ⟨h.course fun _ => id, fun _ _ _ => Course.keepsProtocol⟩

/-- A graph of two nodes that comes to its end at once. -/
def stroll : Graph where
  id := "stroll"
  name := "stroll"
  nodes := [{ kind := "echo" }, { kind := "echo" }]

/-- The stroll ends by itself, and the conversation that it has been told of is announced. -/
theorem protocol_stroll : ∃ e : Engine Builtin, e.activityOf 0 = .inactive ∧
    e.world.eventsOf 0 = [.began 1, .ended false, .conversationDue "farewell"] ∧
    (∃ config kinds acts, Course (ofKinds config kinds) acts e) ∧
      ∀ config kinds acts, Course (ofKinds config kinds) acts e → e.KeepsProtocol acts := by
  have htrigger : ∃ e, ((ofKinds {} [echo]).register stroll).perform 2
      (.trigger "stroll" { start := some 1, conversation := some "farewell" }) = some e ∧
      e.activityOf 0 = .inactive ∧
      e.world.eventsOf 0 = [.began 1, .ended false, .conversationDue "farewell"] :=
    ⟨_, perform_trigger (by decide) (by decide) rfl rfl
      ((Playback.play_of_ne_zero 2 _ true Nat.one_ne_zero (by decide)).trans rfl) rfl, rfl, rfl⟩
  obtain ⟨e, he, hidle, hevents⟩ := htrigger
  have hregistered : Reachable (fun op => op.isReset = false)
      ((ofKinds {} [echo]).register stroll) :=
    (Reachable.start {} [echo]).register stroll rfl
  exact ⟨e, hidle, hevents, protocol_of_reachable (hregistered.perform rfl he)⟩

end Engine

end Cutscene
