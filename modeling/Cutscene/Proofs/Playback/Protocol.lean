import Cutscene.Proofs.Playback.Reached

/-!
# The events of a playback

`Activity.next` is the protocol that the events of a playback follow: which event can come next, and
what it makes of the playback. `activations_eq` counts ends against starts. A conversation is
announced as `Announces` says: right after an end that was not forced, if there is a conversation,
and nowhere else. `heard_of_stages` finds both in the events of every operation, which lead from the
phase before to the phase after.
-/

namespace Cutscene

variable {β : Type}

/-- What a playback does, as far as its events tell. -/
inductive Activity where
  | inactive
  | running
  | paused
deriving DecidableEq, Repr

/-- What a playback of a phase does. -/
def Phase.activity : Phase → Activity
  | .idle => .inactive
  | .running => .running
  | .paused => .paused
  | .finished => .inactive

namespace Activity

/-- What an event makes of an activity, if the event can come at all. -/
def next : Activity → Event.Kind → Option Activity
  | .inactive, .began _ => some .running
  | .inactive, .resumed => some .running
  | .inactive, .conversationDue _ => some .inactive
  | .running, .skipped _ => some .running
  | .running, .paused _ => some .paused
  | .running, .ended _ => some .inactive
  | .paused, .skipped _ => some .running
  | .paused, .resumed => some .running
  | .paused, .ended _ => some .inactive
  | _, _ => none

/-- What events make of an activity, one after the other. -/
def after (a : Activity) (kinds : List Event.Kind) : Option Activity := kinds.foldlM next a

/-- How often events take up an activity. -/
def activations : Activity → List Event.Kind → Nat
  | _, [] => 0
  | a, kind :: rest =>
    match a.next kind with
    | none => 0
    | some b => (if a = .inactive ∧ b ≠ .inactive then 1 else 0) + b.activations rest

/-- The activations that are not closed yet: one, unless inactive. -/
def unclosed (a : Activity) : Nat := if a = .inactive then 0 else 1

theorem after_append {a b : Activity} {kinds : List Event.Kind} (h : a.after kinds = some b)
    (kinds' : List Event.Kind) : a.after (kinds ++ kinds') = b.after kinds' := by
  unfold after at h ⊢
  rw [List.foldlM_append, h]
  rfl

end Activity

/-- The event closes an activation. -/
def Event.Kind.isEnd : Event.Kind → Bool
  | .ended _ => true
  | _ => false

namespace Activity

/-- One event opens an activation, closes one, or does neither. -/
theorem next_balance {a b : Activity} {kind : Event.Kind} (h : a.next kind = some b) :
    (if a = .inactive ∧ b ≠ .inactive then 1 else 0) + a.unclosed =
      (if kind.isEnd = true then 1 else 0) + b.unclosed := by
  cases a <;> cases kind <;> simp only [next, Option.some.injEq, reduceCtorEq] at h <;>
    subst h <;> rfl

/-- Events close as many activations as they open, but for the one that is under way. -/
theorem activations_eq {a b : Activity} {kinds : List Event.Kind} (h : a.after kinds = some b) :
    a.activations kinds + a.unclosed = kinds.countP (·.isEnd) + b.unclosed := by
  induction kinds generalizing a with
  | nil =>
    obtain rfl := Option.some.inj h
    rfl
  | cons kind rest ih =>
    -- The balance of the first event carries over to the activity `c` that it makes.
    unfold after at h
    rw [List.foldlM_cons] at h
    obtain ⟨c, hc, hrest⟩ := Option.bind_eq_some_iff.mp h
    have hstep := next_balance hc
    have hih := ih hrest
    rw [activations, hc, List.countP_cons]
    dsimp only
    omega

/-- Whatever accepts events accepts the first of them. -/
theorem after_of_isPrefix {a b : Activity} {part kinds : List Event.Kind}
    (h : a.after kinds = some b) (hp : part <+: kinds) : ∃ c, a.after part = some c := by
  obtain ⟨rest, rfl⟩ := hp
  unfold after at h ⊢
  rw [List.foldlM_append] at h
  obtain ⟨c, hc, -⟩ := Option.bind_eq_some_iff.mp h
  exact ⟨c, hc⟩

theorem unclosed_inactive : Activity.inactive.unclosed = 0 := rfl

theorem unclosed_le_one (a : Activity) : a.unclosed ≤ 1 := by
  unfold unclosed
  split_ifs <;> omega

end Activity

/-! ### Conversations -/

/-- A conversation is due only right after an end that was not forced. -/
def OnlyAfterEnds (kinds : List Event.Kind) : Prop :=
  ∀ i c, kinds[i]? = some (.conversationDue c) → ∃ j, i = j + 1 ∧ kinds[j]? = some (.ended false)

/-- Events as they are while a certain conversation, or none, is set to follow the end. -/
structure Announces (conversation : Option String) (kinds : List Event.Kind) : Prop where
  /-- What comes right after an end that was not forced is the conversation, if there is one. -/
  due : ∀ i, kinds[i]? = some (.ended false) →
    ∀ c, kinds[i + 1]? = some (.conversationDue c) ↔ conversation = some c
  only : OnlyAfterEnds kinds

theorem OnlyAfterEnds.append {kinds kinds' : List Event.Kind} (h : OnlyAfterEnds kinds)
    (h' : OnlyAfterEnds kinds') : OnlyAfterEnds (kinds ++ kinds') := by
  intro i c hi
  rcases Nat.lt_or_ge i kinds.length with hlt | hge
  · rw [List.getElem?_append_left hlt] at hi
    obtain ⟨j, rfl, hj⟩ := h i c hi
    have hjlt : j < kinds.length := by omega
    exact ⟨j, rfl, by rw [List.getElem?_append_left hjlt, hj]⟩
  · rw [List.getElem?_append_right hge] at hi
    obtain ⟨j, hij, hj⟩ := h' _ c hi
    refine ⟨j + kinds.length, by omega, ?_⟩
    rw [List.getElem?_append_right (by omega), Nat.add_sub_cancel, hj]

theorem OnlyAfterEnds.head {kinds : List Event.Kind} (h : OnlyAfterEnds kinds) (c : String) :
    kinds[0]? ≠ some (.conversationDue c) := by
  intro h0
  obtain ⟨j, hj, -⟩ := h 0 c h0
  omega

theorem Announces.append {conversation : Option String} {kinds kinds' : List Event.Kind}
    (h : Announces conversation kinds) (h' : Announces conversation kinds') :
    Announces conversation (kinds ++ kinds') where
  only := h.only.append h'.only
  due i hi c := by
    rcases Nat.lt_or_ge i kinds.length with hlt | hge
    · rw [List.getElem?_append_left hlt] at hi
      rcases Nat.lt_or_ge (i + 1) kinds.length with hlt' | hge'
      · rw [List.getElem?_append_left hlt']
        exact h.due i hi c
      · -- The first events stop at an end: there is no conversation, and none is due next.
        have hnone := h.due i hi c
        rw [List.getElem?_eq_none hge'] at hnone
        have hzero : i + 1 - kinds.length = 0 := by omega
        rw [List.getElem?_append_right hge', hzero, ← hnone]
        exact iff_of_false (h'.only.head c) (by simp)
    · have hsucc : i + 1 - kinds.length = i - kinds.length + 1 := by omega
      rw [List.getElem?_append_right hge] at hi
      rw [List.getElem?_append_right (by omega), hsucc]
      exact h'.due _ hi c

/-- Events without an end of the kind that conversations follow. -/
theorem announces_of_forall {conversation : Option String} {kinds : List Event.Kind}
    (h : ∀ kind ∈ kinds, kind ≠ .ended false ∧ ∀ c, kind ≠ .conversationDue c) :
    Announces conversation kinds where
  due _ hi := absurd rfl (h _ (List.mem_of_getElem? hi)).1
  only _ c hi := absurd rfl ((h _ (List.mem_of_getElem? hi)).2 c)

theorem announces_closing (conversation : Option String) :
    Announces conversation (closing conversation) := by
  unfold closing
  cases conversation with
  | none =>
    refine ⟨fun i hi c => ?_, fun i c hi => ?_⟩
    · rcases i with _ | i <;> simp
    · rcases i with _ | i <;> simp at hi
  | some conversation =>
    refine ⟨fun i hi c => ?_, fun i c hi => ?_⟩
    · rcases i with _ | _ | i
      · simp
      · simp at hi
      · simp at hi
    · rcases i with _ | _ | i
      · simp at hi
      · exact ⟨0, rfl, rfl⟩
      · simp at hi

namespace Playback

theorem announces_of_passage {p p' : Playback β} {reg reg' : Registry} {kinds : List Event.Kind}
    (h : Passage p p' reg reg' kinds) : Announces p.conversation kinds := by
  cases h with
  | ended hphase hphase' => exact announces_closing p.conversation
  | entered start queue hphase ho => cases ho <;> exact announces_of_forall (by simp)
  | killed hphase' => split_ifs <;> exact announces_of_forall (by simp)
  | _ => exact announces_of_forall (by simp)

/-! ### What the events of an operation make of a playback -/

theorem activity_of_isActive {p : Playback β} (h : p.isActive = false) :
    p.phase.activity = .inactive := by
  unfold isActive at h
  cases hp : p.phase <;> simp [hp] at h ⊢ <;> rfl

theorem after_of_passage {p p' : Playback β} {reg reg' : Registry} {kinds : List Event.Kind}
    (h : Passage p p' reg reg' kinds) (hlive : p.phase = .running → reg.isLive p.id = true) :
    p.phase.activity.after kinds = some p'.phase.activity := by
  cases h with
  | calm hphase => rw [hphase]; rfl
  | entered start queue hphase ho =>
    rw [hphase]
    cases ho with
    | began hp start => rw [activity_of_isActive hp]; rfl
    | beganSkipping hp start => rw [activity_of_isActive hp]; rfl
    | skipped hp start =>
      unfold isActive at hp
      cases hphase : p.phase <;> simp [hphase] at hp <;> rfl
    | resumed hp => cases hphase : p.phase <;> first | exact absurd hphase hp | rfl
  | paused parameters hphase hphase' => rw [hphase, hphase']; rfl
  | ended hphase hphase' =>
    rw [hphase, hphase']
    unfold closing
    cases p.conversation <;> rfl
  | killed hphase' =>
    rw [hphase']
    unfold isActive
    cases hphase : p.phase <;> rfl
  | lapsed hphase hr hphase' =>
    -- A playback that is registered as running has not lapsed.
    have htrue := hlive hphase
    simp [hr] at htrue

/-- What observers hear of an operation, and what it makes of the playback. -/
structure Heard (s s' : Playback β × World β) (kinds : List Event.Kind) : Prop where
  events : ∀ id, s'.2.eventsOf id = s.2.eventsOf id ++ if s.1.id = id then kinds else []
  after : IsLive s.1 s.2 → s.1.phase.activity.after kinds = some s'.1.phase.activity
  announces : Announces s.1.conversation kinds

theorem heard_of_stages {s s' : Playback β × World β} (h : Stages s s') :
    ∃ kinds, Heard s s' kinds := by
  induction h with
  | refl => exact ⟨[], fun id => by simp, fun _ => rfl, announces_of_forall (by simp)⟩
  | @tail u v hs hstage ih =>
    obtain ⟨kinds, hevents, hafter, hannounces⟩ := ih
    obtain ⟨more, hpassage, hmore⟩ := hstage.passage
    have hid : u.1.id = s.1.id := Stages.id_eq hs
    have hconversation : u.1.conversation = s.1.conversation :=
      congrArg Identity.conversation (Stages.identity_eq hs)
    refine ⟨kinds ++ more, fun id => ?_, fun hlive => ?_, ?_⟩
    · by_cases hne : s.1.id = id
      · subst hne
        rw [← hid, hmore, hid, hevents, if_pos rfl, if_pos rfl, List.append_assoc]
      · have hother : id ≠ u.1.id := by
          rw [hid]
          exact Ne.symm hne
        rw [hstage.others id hother, hevents, if_neg hne, if_neg hne]
    · rw [Activity.after_append (hafter hlive)]
      exact after_of_passage hpassage (hlive.stages hs)
    · rw [← hconversation] at hannounces ⊢
      exact hannounces.append (announces_of_passage hpassage)

end Playback

end Cutscene
