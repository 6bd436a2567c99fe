import Cutscene.Proofs.Engine.Consistent
import Cutscene.Proofs.Engine.History
import Cutscene.Proofs.Engine.Saving
import Cutscene.Proofs.Playback.Queueing

/-!
# Places in the skip queue

A run that has been started without a place in the skip queue has none until it is resumed: a resume
asks for a place whenever the graph can be skipped at all, whatever the run had before. Nothing else
gives a run a place, and nothing but skipping everything or resetting its record takes one away
(`Engine.Onward`). So a run that waited when it was paused waits again after it has been resumed.
-/

namespace Cutscene.Engine

variable {β : Type} [Behaviour β] {e e' : Engine β} {d : Deed β}

/-- The deed takes no place in the skip queue away from a record that stays. -/
def Deed.isPatient : Deed β → Bool
  | .unqueue | .reset => false
  | _ => true

/-- Whatever happens, short of emptying the skip queue or resetting a record. -/
abbrev Onward (e e' : Engine β) : Prop := Does (fun _ d => d.isPatient = true) e e'

/-! ### Deed by deed -/

/-- A deed leaves each instance with the place in the skip queue that it should have. -/
theorem Doing.queues (h : Doing e d e') (hl : e.Linked) (hd : d.isPatient = true)
    {p : Playback β} (hp : p ∈ e.instances) :
    e.world.Queues p.id p.isSkippable e'.world := by
  have hnever : (∀ p' op, d ≠ .act p' op) →
      (∀ r', e'.world.registry.record? p.id = some r' →
        ∃ r, e.world.registry.record? p.id = some r ∧ r'.queued = r.queued) →
      e.world.Queues p.id p.isSkippable e'.world :=
    fun hact hk => World.queues_of_eq
      (h.eventsOf_eq hl.notSkipping fun p' op hd => absurd hd (hact p' op)) hk
  have hsame : (∀ p' op, d ≠ .act p' op) → e'.world.registry = e.world.registry →
      e.world.Queues p.id p.isSkippable e'.world := by
    intro hact hr
    refine hnever hact ?_
    rw [hr]
    exact Registry.KeepsPlaces.refl _ _
  cases h with
  | @act p' hp' parameters conversation notices fuel op r hop hr =>
    have hmem := mem_instances_of_instance? hp'
    by_cases hid : p.id = p'.id
    · obtain rfl : p = p' := List.inj_on_of_nodup_map hl.tables.ids hp hmem hid
      have hact := Playback.queues_perform (p := { p with parameters, conversation })
        (hl.notSkipping p hp) hop hr
      exact (e.world.queues_noticeAll notices).trans hact
    · -- Another instance acts, which is not heard of as this one and leaves its record alone.
      have hdoing : Doing e (.act p' op) (e.put r) := .act hp' notices hop hr
      refine World.queues_of_eq (hdoing.eventsOf_eq hl.notSkipping ?_) ?_
      · rintro q op' hq
        obtain ⟨rfl, rfl⟩ := Deed.act.inj hq
        exact Ne.symm hid
      · have hrecord := Playback.record?_perform hr hid
        rw [(e.world.quiet_noticeAll notices).registry] at hrecord
        change ∀ r', r.2.registry.record? p.id = some r' → _
        rw [hrecord]
        exact Registry.KeepsPlaces.refl _ _
  | thin ht hsub =>
    exact hnever (by simp) (Registry.keepsPlaces_of_subset hl.tables.single hsub p.id)
  | note notices => exact hsame (by simp) (e.world.quiet_noticeAll notices).registry
  | pass hw => exact hsame (by simp) hw.registry
  | spawn hs => exact hsame (by simp) (registry_spawn hs)
  | retire =>
    refine hsame (by simp) ?_
    unfold retired
    rw [(foldl_park_instances _ _).2]
  | reload hi => simp [hi] at hp
  | unqueue | reset => simp [Deed.isPatient] at hd
  | _ => exact hsame (by simp) rfl

/-- Whatever happens short of that, an instance has the place in the skip queue that it should have
after what has been heard of it. -/
theorem Onward.queues (h : e.Onward e') (hl : e.Linked) {q : Playback β} (hq : q ∈ e'.instances) :
    e.world.Queues q.id q.isSkippable e'.world := by
  induction h generalizing q with
  | refl => exact .refl e.world
  | @tail a b hfirst hone ih =>
    obtain ⟨d, hpatient, hdoing⟩ := hone
    have hla := hl.does hfirst
    have hstays : ∀ p ∈ a.instances, p.SameMake q →
        e.world.Queues q.id q.isSkippable b.world := by
      intro p hp hsame
      rw [hsame.id, hsame.isSkippable]
      exact (ih hp).trans (hdoing.queues hla hpatient hp)
    rcases hdoing.old_or_made hq with ⟨p, hp, hsame⟩ | hmade
    · exact hstays p hp hsame
    · -- An instance that has just been made has no record yet.
      obtain ⟨entries, hj⟩ := Does.journal (hfirst.tail ⟨d, hpatient, hdoing⟩) hl
      refine ⟨_, World.eventsOf_of_journal_eq hj q.id, fun r' hr' => ?_⟩
      rw [hmade.id, hmade.registry, hla.tables.record?_nextId] at hr'
      simp at hr'

/-- Only what can be skipped waits in the skip queue. -/
def QueuesSkippables (e : Engine β) : Prop := ∀ p ∈ e.instances, ∀ r,
  e.world.registry.record? p.id = some r → r.queued = true → p.isSkippable = true

theorem QueuesSkippables.doing (h : e.QueuesSkippables) (hl : e.Linked) (hd : Doing e d e') :
    e'.QueuesSkippables := by
  intro q hq r' hr' hqueued
  have hold : ∀ p ∈ e.instances, p.SameMake q →
      (∃ r, e.world.registry.record? p.id = some r ∧ (r'.queued = true → r.queued = true)) →
      q.isSkippable = true := by
    rintro p hp hsame ⟨r, hr, hkept⟩
    exact hsame.isSkippable.trans (h p hp r hr (hkept hqueued))
  rcases hd.old_or_made hq with ⟨p, hp, hsame⟩ | hmade
  · rw [hsame.id] at hr'
    by_cases hpatient : d.isPatient = true
    · obtain ⟨news, -, hplace⟩ := hd.queues hl hpatient hp
      cases hplace r' hr' with
      | began _ hq => exact hsame.isSkippable.trans (hq hqueued)
      | resumed _ hq => exact hsame.isSkippable.trans (hq.symm.trans hqueued)
      | @kept r _ hr hq => exact hold p hp hsame ⟨r, hr, fun hqueued => hq ▸ hqueued⟩
    · -- The queue has been emptied, or a record has been reset.
      cases hd with
      | unqueue =>
        change (Registry.unqueued _).record? p.id = some r' at hr'
        rw [Registry.unqueued, Registry.record?_unqueue] at hr'
        obtain ⟨r, hr, rfl⟩ := Option.map_eq_some_iff.mp hr'
        simp at hqueued
      | @reset p' hp' unqueue =>
        change (e.world.registry.modify p'.id (·.reset unqueue)).record? p.id = some r' at hr'
        rw [Registry.record?_reset] at hr'
        split_ifs at hr' with hid
        · obtain ⟨r, hr, rfl⟩ := Option.map_eq_some_iff.mp hr'
          refine hold p hp hsame ⟨r, hid ▸ hr, fun hqueued => ?_⟩
          exact (Bool.and_eq_true_iff.mp hqueued).1
        · exact hold p hp hsame ⟨r', hr', id⟩
      | _ => simp [Deed.isPatient] at hpatient
  · rw [hmade.id, hmade.registry, hl.tables.record?_nextId] at hr'
    simp at hr'

theorem QueuesSkippables.does {allowed : Engine β → Deed β → Prop} (h : e.QueuesSkippables)
    (hl : e.Linked) (hd : Does allowed e e') : e'.QueuesSkippables := by
  induction hd with
  | refl => exact h
  | tail hfirst hone ih =>
    obtain ⟨d, -, hdoing⟩ := hone
    exact ih.doing (hl.does hfirst) hdoing

/-- Whatever a host does, only what can be skipped waits in the skip queue. -/
theorem Handled.queuesSkippables (h : e.Handled) : e.QueuesSkippables :=
  h.invariant_of_deeds (fun _ _ _ hp => absurd hp List.not_mem_nil)
    fun _ _ _ hl _ ha hdoing => ha.doing hl hdoing

/-! ### Runs and their places -/

/-- A run that is started waits if that is asked for and the graph can be skipped. -/
theorem queued_begin {fuel : Nat} {graph : String} {trigger : Trigger} {id : Nat} {r : Record}
    (hl : e.Linked) (hskip : trigger.skip = false)
    (h : e.begin fuel graph trigger = some (e', .ok id))
    (hr : e'.world.registry.record? id = some r) :
    ∃ p ∈ e'.instances, p.id = id ∧ r.queued = (trigger.queue && p.isSkippable) := by
  rcases begin_cases h with ⟨error, hanswer, -⟩ | ⟨e₁, j, p, s, hanswer, hs, hp, hplay, rfl⟩
  · simp at hanswer
  · obtain rfl : id = j := by simpa using hanswer
    have hmem := mem_instances_of_instance? hp
    have hskipping : (trigger.brief p).skipping = false := (hl.step (.spawn hs)).notSkipping p hmem
    have hsame : p.SameMake s.1 := (Playback.SameMake.told p _ _).trans (.of_perform hplay)
    have hpid := instance?_id hp
    unfold Trigger.operation at hplay
    rw [hskip] at hplay
    have hfound : s.2.registry.record? p.id = some r := by
      rw [hpid]
      exact hr
    refine ⟨s.1, mem_put_self hp hsame.id, hsame.id.trans hpid, ?_⟩
    rw [hsame.isSkippable]
    exact Playback.queued_play hskipping hplay hfound

/-- What has become of a playback's place in the skip queue since an earlier engine. -/
structure KeptPlace (e : Engine β) (id : Nat) (r' : Record) (e' : Engine β) : Prop where
  /-- Until the run is resumed, its place is the one that it had. -/
  kept : .resumed ∉ e.world.news e'.world id →
    ∃ r, e.world.registry.record? id = some r ∧ r'.queued = r.queued
  /-- Once it has been resumed, it waits if it can be skipped. -/
  resumed : .resumed ∈ e.world.news e'.world id →
    ∃ p ∈ e'.instances, p.id = id ∧ r'.queued = p.isSkippable
  /-- In either case it waits if it did before. -/
  again : ∀ r, e.world.registry.record? id = some r → r.queued = true → r'.queued = true
  /-- Without a place it is not skipped with everything that waits. -/
  unasked : r'.queued = false → ∀ request ∈ e'.world.registry.takeQueue.1,
    request.playback ≠ some id

theorem Onward.keptPlace (h : e.Onward e') (hl : e.Linked) (hq : e.QueuesSkippables) {id : Nat}
    {r' : Record} (hr' : e'.world.registry.record? id = some r')
    (hnew : ∀ start, .began start ∉ e.world.news e'.world id) : e.KeptPlace id r' e' := by
  have hl' := hl.does h
  obtain ⟨hmem, hid⟩ := Registry.mem_records_of_record? hr'
  obtain ⟨p', hp', rfl⟩ := hl'.tables.named id (Registry.mem_attached.mpr ⟨r', hmem, hid⟩)
  obtain ⟨news, hnews, hplace⟩ := h.queues hl hp'
  rw [World.news_of_eventsOf_eq_append hnews] at hnew
  have hcases : (.resumed ∈ news ∧ r'.queued = p'.isSkippable) ∨
      (.resumed ∉ news ∧ ∃ r, e.world.registry.record? p'.id = some r ∧ r'.queued = r.queued) := by
    cases hplace r' hr' with
    | began hbegan => exact absurd hbegan (hnew _)
    | resumed hresumed hqueued => exact Or.inl ⟨hresumed, hqueued⟩
    | @kept r hquiet hr hqueued =>
      refine Or.inr ⟨fun hresumed => ?_, r, hr, hqueued⟩
      exact absurd (hquiet _ hresumed) (by decide)
  constructor
  · intro hnot
    rw [World.news_of_eventsOf_eq_append hnews] at hnot
    rcases hcases with ⟨hresumed, -⟩ | ⟨-, hkept⟩
    · exact absurd hresumed hnot
    · exact hkept
  · intro hresumed
    rw [World.news_of_eventsOf_eq_append hnews] at hresumed
    rcases hcases with ⟨-, hqueued⟩ | ⟨hnot, -⟩
    · exact ⟨p', hp', rfl, hqueued⟩
    · exact absurd hresumed hnot
  · intro r hr hqueued
    rcases hcases with ⟨-, hqueued'⟩ | ⟨-, r₀, hr₀, hqueued'⟩
    · -- What waited before can be skipped, and still can.
      obtain ⟨hmem₀, hid₀⟩ := Registry.mem_records_of_record? hr
      obtain ⟨p₀, hp₀, hpid⟩ := hl.tables.named p'.id (Registry.mem_attached.mpr ⟨r, hmem₀, hid₀⟩)
      have hlt : p'.id < e.nextId := hpid ▸ hl.tables.fresh p₀ hp₀
      obtain ⟨p, hp, hsame⟩ := (Does.descends h).instances p' hp' hlt
      rw [hqueued', hsame.isSkippable]
      exact hq p hp r (hsame.id ▸ hr) hqueued
    · obtain rfl := Option.some.inj (hr.symm.trans hr₀)
      exact hqueued'.trans hqueued
  · exact fun hqueued request => Registry.not_requested hl'.tables.single hr' hqueued

/-- At any point: a run that is started waits in the skip queue if that is asked for and the graph
can be skipped; from then on no operation gives it a place or takes its place away, but for a
resume, which gives it one whenever the graph can be skipped, until everything is skipped, its
record is reset or it begins again; and what is restored from a save has the place of the record
that was saved. -/
theorem queued_onward {e₀ e : Engine β} (h : e₀.Handled) (hd : Does (fun _ _ => True) e₀ e) :
    (∀ fuel graph trigger e' id r, trigger.skip = false →
      e.begin fuel graph trigger = some (e', .ok id) → e'.world.registry.record? id = some r →
      ∃ p ∈ e'.instances, p.id = id ∧ r.queued = (trigger.queue && p.isSkippable)) ∧
    (∀ fuel op e', op.isReset = false → op ≠ .skipAll → e.perform fuel op = some e' →
      e.Onward e') ∧
    (∀ e' id r', e.Onward e' → e'.world.registry.record? id = some r' →
      (∀ start, .began start ∉ e.world.news e'.world id) → e.KeptPlace id r' e') ∧
    (Reachable (fun _ => True) e → (∀ r ∈ e.world.registry.records, r.HasWords) →
      ∀ restored ∈ (e.load e.save).world.registry.records, ∃ r ∈ e.world.registry.records,
        r.running = false ∧ restored = r.restored ∧ restored.queued = r.queued) := by
  have hl := h.linked.does hd
  have hq := h.queuesSkippables.does h.linked hd
  refine ⟨fun fuel graph trigger e' id r hskip hbegin hr => queued_begin hl hskip hbegin hr,
    fun fuel op e' hop hne hr => ?_,
    fun e' id r' honward hr' hnew => honward.keptPlace hl hq hr' hnew,
    fun hreachable hwords restored hmem => ?_⟩
  · refine (does_perform hop hr).mono fun _ d hadmits => ?_
    cases d with
    | unqueue => exact absurd hadmits hne
    | reset => simp [Operation.Admits, hop] at hadmits
    | _ => rfl
  · rw [records_load_save hreachable hwords] at hmem
    obtain ⟨r, hr, rfl⟩ := List.mem_map.mp hmem
    obtain ⟨hmem, hkept⟩ := List.mem_filter.mp hr
    simp only [Bool.and_eq_true, Bool.not_eq_true'] at hkept
    exact ⟨r, hmem, hkept.1, rfl, rfl⟩

/-- The circle runs and is not in the skip queue; it can be paused, and resumed after that. -/
theorem reachable_unqueuedCircle : ∃ e e' e'' : Engine Builtin, Reachable (fun _ => True) e ∧
    (e.world.registry.record? 0).map (·.queued) = some false ∧
    e.perform 1 (.pause 0) = some e' ∧ e'.perform 1 (.resumePaused "circle" false) = some e'' ∧
    e.world.news e'.world 0 = [.paused [1]] ∧ e.world.news e''.world 0 = [.paused [1], .resumed] ∧
    (e'.world.registry.record? 0).isSome = true ∧ (e''.world.registry.record? 0).isSome = true ∧
    ∀ p ∈ e''.instances, p.isSkippable = true := by
  have htrigger : ∃ e, ((ofKinds {} [echo]).register circle).perform 1
      (.trigger "circle" { start := some 1, queue := false }) = some e ∧
      ∃ e' e'', (e.world.registry.record? 0).map (·.queued) = some false ∧
        e.perform 1 (.pause 0) = some e' ∧ e'.perform 1 (.resumePaused "circle" false) = some e'' ∧
        e.world.news e'.world 0 = [.paused [1]] ∧
        e.world.news e''.world 0 = [.paused [1], .resumed] ∧
        (e'.world.registry.record? 0).isSome = true ∧
        (e''.world.registry.record? 0).isSome = true ∧
        ∀ p ∈ e''.instances, p.isSkippable = true :=
    ⟨_, perform_trigger (by decide) (by decide) rfl rfl
      ((Playback.play_of_ne_zero 1 _ false Nat.one_ne_zero (by decide)).trans rfl) rfl,
      _, _, rfl, rfl, rfl, rfl, rfl, rfl, rfl, by decide⟩
  obtain ⟨e, he, e', e'', hrest⟩ := htrigger
  have hregistered : Reachable (fun _ => True) ((ofKinds {} [echo]).register circle) :=
    (Reachable.start {} [echo]).register circle trivial
  exact ⟨e, e', e'', hregistered.perform trivial he, hrest⟩

/-- The circle is still not in the queue when it has been paused, but it is once it has been
resumed. -/
theorem queued_onward_circle : ∃ (e e' e'' : Engine Builtin) (r' r'' : Record),
    Reachable (fun _ => True) e ∧ e.Onward e' ∧ e'.Onward e'' ∧
      e'.world.registry.record? 0 = some r' ∧ e''.world.registry.record? 0 = some r'' ∧
      r'.queued = false ∧ (∀ request ∈ e'.world.registry.takeQueue.1, request.playback ≠ some 0) ∧
      r''.queued = true := by
  obtain ⟨e, e', e'', hreachable, hqueued, hpause, hresume, hnews', hnews'', hr', hr'',
    hskippable⟩ := reachable_unqueuedCircle
  obtain ⟨r', hr'⟩ := Option.isSome_iff_exists.mp hr'
  obtain ⟨r'', hr''⟩ := Option.isSome_iff_exists.mp hr''
  obtain ⟨-, honward, hplaces, -⟩ := queued_onward hreachable.handled .refl
  have hfirst := honward 1 (.pause 0) e' rfl (by simp) hpause
  obtain ⟨-, honward', -, -⟩ :=
    queued_onward hreachable.handled (hfirst.mono fun _ _ _ => trivial)
  have hsecond := honward' 1 (.resumePaused "circle" false) e'' rfl (by simp) hresume
  have hplace' := hplaces e' 0 r' hfirst hr' (by simp [hnews'])
  have hplace'' := hplaces e'' 0 r'' (hfirst.trans hsecond) hr'' (by simp [hnews''])
  obtain ⟨r, hr, hkept⟩ := hplace'.kept (by simp [hnews'])
  obtain ⟨p, hp, -, hresumed⟩ := hplace''.resumed (by simp [hnews''])
  have hfalse : r'.queued = false := by
    rw [hkept]
    simpa [hr] using hqueued
  exact ⟨e, e', e'', r', r'', hreachable, hfirst, hsecond, hr', hr'', hfalse,
    hplace'.unasked hfalse, hresumed.trans (hskippable p hp)⟩

end Cutscene.Engine
