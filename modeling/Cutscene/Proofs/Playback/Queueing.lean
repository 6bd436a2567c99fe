import Cutscene.Proofs.Playback.Hearing
import Cutscene.Proofs.Playback.Skipped

/-!
# Who waits in the skip queue

Whether a playback waits in the skip queue is written down in its record when a run is taken up: a
run that begins waits if that is asked for, and one that is resumed waits whether it did before or
not, as long as the playback can be skipped at all. Otherwise the place in the queue stays what it
is until the record goes (`Registry.KeepsPlaces`). `World.Queues` says so of a later world, and
every operation on a playback leads to such a world (`Playback.queues_perform`).
-/

namespace Cutscene

variable {β : Type}

/-- The records that are left of playbacks have the places in the skip queue that they had. -/
def Registry.KeepsPlaces (reg reg' : Registry) : Prop :=
  ∀ id r', reg'.record? id = some r' → ∃ r, reg.record? id = some r ∧ r'.queued = r.queued

namespace Registry

variable {reg reg' reg'' : Registry}

theorem KeepsPlaces.refl (reg : Registry) : reg.KeepsPlaces reg := fun _ r hr => ⟨r, hr, rfl⟩

theorem KeepsPlaces.trans (h : reg.KeepsPlaces reg') (h' : reg'.KeepsPlaces reg'') :
    reg.KeepsPlaces reg'' := by
  intro id r'' hr''
  obtain ⟨r', hr', hqueued'⟩ := h' id r'' hr''
  obtain ⟨r, hr, hqueued⟩ := h id r' hr'
  exact ⟨r, hr, hqueued'.trans hqueued⟩

theorem keepsPlaces_drop (reg : Registry) (id : Nat) : reg.KeepsPlaces (reg.drop id) := by
  intro j r' hr'
  rw [record?_drop] at hr'
  split_ifs at hr'
  exact ⟨r', hr', rfl⟩

theorem keepsPlaces_pause (reg : Registry) (id : Nat) (points : List Nat) (parameters : String) :
    reg.KeepsPlaces (reg.pause id points parameters) := by
  intro j r' hr'
  rw [record?_pause] at hr'
  split_ifs at hr' with hj
  · obtain ⟨r, hr, rfl⟩ := Option.map_eq_some_iff.mp hr'
    exact ⟨r, hj ▸ hr, rfl⟩
  · exact ⟨r', hr', rfl⟩

/-- A record that is left was there before. -/
theorem keepsPlaces_of_subset (hn : reg.attached.Nodup)
    (h : ∀ r ∈ reg'.records, r ∈ reg.records) : reg.KeepsPlaces reg' := by
  intro id r' hr'
  obtain ⟨hmem, hid⟩ := mem_records_of_record? hr'
  exact ⟨r', (record?_eq_some_iff hn).mpr ⟨h r' hmem, hid⟩, rfl⟩

end Registry

/-- Why a record waits in the skip queue or does not, after what was heard of its playback: a run
began, for which it may have been asked; or the run has been resumed; or neither, and the record is
the one from before. -/
inductive Place (before : Option Record) (skippable : Bool) (news : List Event.Kind)
    (queued : Bool) : Prop
  | began {start : Nat} (h : .began start ∈ news) (hq : queued = true → skippable = true)
  | resumed (h : .resumed ∈ news) (hq : queued = skippable)
  | kept {r : Record} (h : ∀ kind ∈ news, kind.isOpening = false) (hr : before = some r)
    (hq : queued = r.queued)

/-- A later world, in which a playback has the place in the skip queue that it should have after
what was heard of it. -/
def World.Queues (w : World β) (id : Nat) (skippable : Bool) (w' : World β) : Prop :=
  ∃ news, w'.eventsOf id = w.eventsOf id ++ news ∧ ∀ r', w'.registry.record? id = some r' →
    Place (w.registry.record? id) skippable news r'.queued

namespace World

variable {w w' w'' : World β} {id : Nat} {skippable : Bool}

theorem Queues.trans (h : w.Queues id skippable w') (h' : w'.Queues id skippable w'') :
    w.Queues id skippable w'' := by
  obtain ⟨news, hnews, hplace⟩ := h
  obtain ⟨more, hmore, hplace'⟩ := h'
  refine ⟨news ++ more, by rw [hmore, hnews, List.append_assoc], fun r'' hr'' => ?_⟩
  cases hplace' r'' hr'' with
  | began hbegan hq => exact .began (List.mem_append_right _ hbegan) hq
  | resumed hresumed hq => exact .resumed (List.mem_append_right _ hresumed) hq
  | @kept r' hquiet hr' hq =>
    -- Nothing was taken up since, so it is as it was at that time.
    rw [hq]
    cases hplace r' hr' with
    | began hbegan hq => exact .began (List.mem_append_left _ hbegan) hq
    | resumed hresumed hq => exact .resumed (List.mem_append_left _ hresumed) hq
    | kept hbefore hr hq =>
      refine .kept (fun kind hkind => ?_) hr hq
      exact (List.mem_append.mp hkind).elim (hbefore kind) (hquiet kind)

/-- No run has been taken up, and records have kept their places. -/
theorem GoesOn.queues {j : Nat} {graph : String} (h : w.GoesOn j graph w')
    (hk : w.registry.KeepsPlaces w'.registry) : w.Queues id skippable w' := by
  obtain ⟨news, hnews, hquiet⟩ := Hears.eventsOf h id
  refine ⟨news, hnews, fun r' hr' => ?_⟩
  obtain ⟨r, hr, hq⟩ := hk id r' hr'
  exact .kept hquiet hr hq

/-- Nothing has been heard of a playback, and its record has kept its place. -/
theorem queues_of_eq (he : w'.eventsOf id = w.eventsOf id)
    (hk : ∀ r', w'.registry.record? id = some r' →
      ∃ r, w.registry.record? id = some r ∧ r'.queued = r.queued) : w.Queues id skippable w' := by
  refine ⟨[], by rw [he, List.append_nil], fun r' hr' => ?_⟩
  obtain ⟨r, hr, hq⟩ := hk r' hr'
  exact .kept (fun kind hkind => absurd hkind List.not_mem_nil) hr hq

theorem Queues.refl (w : World β) : w.Queues id skippable w :=
  queues_of_eq rfl (Registry.KeepsPlaces.refl w.registry id)

theorem queues_noticeAll (w : World β) (notices : List Notice) :
    w.Queues id skippable (w.noticeAll notices) := by
  have hquiet := w.quiet_noticeAll notices
  refine queues_of_eq (hquiet.events id) ?_
  rw [hquiet.registry]
  exact Registry.KeepsPlaces.refl w.registry id

/-- A run has begun, and waits if that was asked for and it can be skipped. -/
theorem queues_began {start : Nat} {r : Record} {queue : Bool}
    (he : w'.eventsOf id = w.eventsOf id ++ [.began start])
    (hr : w'.registry.record? id = some r) (hq : r.queued = (queue && skippable)) :
    w.Queues id skippable w' := by
  refine ⟨_, he, fun r' hr' => ?_⟩
  obtain rfl := Option.some.inj (hr.symm.trans hr')
  refine .began List.mem_cons_self fun hqueued => ?_
  rw [hq, Bool.and_eq_true] at hqueued
  exact hqueued.2

/-- A run has been resumed, and waits if it can be skipped. -/
theorem queues_resumed {r : Record} (he : w'.eventsOf id = w.eventsOf id ++ [.resumed])
    (hr : w'.registry.record? id = some r) (hq : r.queued = skippable) :
    w.Queues id skippable w' := by
  refine ⟨_, he, fun r' hr' => ?_⟩
  obtain rfl := Option.some.inj (hr.symm.trans hr')
  exact .resumed List.mem_cons_self hq

end World

/-! ### Turns -/

namespace Turn

variable [Behaviour β] {t u : Turn β}

omit [Behaviour β] in
theorem keepsPlaces_endRun (t : Turn β) :
    t.world.registry.KeepsPlaces t.endRun.world.registry := by
  rw [t.endRun_world.2.2.2]
  exact t.world.registry.keepsPlaces_drop _

/-- In the course of a turn no record loses or gets a place in the skip queue. -/
theorem Change.keepsPlaces (h : t.Change u) :
    t.world.registry.KeepsPlaces u.world.registry := by
  rcases h.calm_or_stops with ⟨hcalm, -⟩ | rfl | ⟨-, rfl⟩ | ⟨-, rfl⟩
  · rw [hcalm.world.registry]
    exact .refl _
  · exact t.keepsPlaces_endRun
  · exact t.world.registry.keepsPlaces_pause _ _ _
  · change t.world.registry.KeepsPlaces (t.playback.kill t.world).2.registry
    rw [Playback.registry_kill]
    exact t.world.registry.keepsPlaces_drop _

theorem Changes.queues (h : t.Changes u) {id : Nat} {skippable : Bool} :
    t.world.Queues id skippable u.world :=
  h.goesOn.queues (h.invariant
    (I := fun u : Turn β => t.world.registry.KeepsPlaces u.world.registry) (.refl _)
    fun _ _ hu _ hchange => hu.trans hchange.keepsPlaces)

end Turn

/-! ### Operations -/

namespace Playback

variable {p : Playback β} {w : World β}

theorem queues_kill (p : Playback β) (w : World β) {id : Nat} {skippable : Bool} :
    w.Queues id skippable (p.kill w).2 := by
  refine (World.goesOn_kill p w).queues ?_
  rw [registry_kill]
  exact w.registry.keepsPlaces_drop _

theorem queues_playTurn (p : Playback β) (w : World β) (start : Nat) (queue : Bool) :
    w.Queues p.id p.isSkippable (p.playTurn w start queue).world := by
  have hrecord := Registry.record?_enter w.registry p.id p.id p.graph start
    (queue && p.isSkippable) p.conversation
  rw [if_pos rfl] at hrecord
  have hbegan := World.eventsOf_emit_self (p.restarted start) (.began start)
    ((p.restarted start).entered w (queue && p.isSkippable))
  exact World.queues_began hbegan hrecord rfl

theorem queues_playBeginning (p : Playback β) (w : World β) (start : Nat) (queue : Bool) :
    w.Queues p.id p.isSkippable (p.playBeginning w start queue).world := by
  have hstopped : w.Queues p.id p.isSkippable (p.stopped w).2 ∧ (p.stopped w).1.id = p.id ∧
      (p.stopped w).1.isSkippable = p.isSkippable := by
    unfold stopped
    split_ifs
    · exact ⟨p.queues_kill w, rfl, rfl⟩
    · exact ⟨.refl w, rfl, rfl⟩
  obtain ⟨hqueues, hid, hskippable⟩ := hstopped
  have hbegan := (p.stopped w).1.queues_playTurn (p.stopped w).2 start queue
  rw [hid, hskippable] at hbegan
  unfold playBeginning
  dsimp only
  split_ifs
  · exact hqueues.trans ((p.stopped w).1.queues_kill (p.stopped w).2)
  · exact hqueues.trans hbegan
  · exact hqueues.trans hbegan

theorem queues_resumeTurn (p : Playback β) (w : World β) (start : Nat) (points : List Nat)
    (parameters : String) (rerun : Bool) :
    w.Queues p.id p.isSkippable (p.resumeTurn w start points parameters rerun).world := by
  let p' := p.revived start (p.restored parameters).1
  let w' := w.noticeAll (p.restored parameters).2
  have hnoticed : w.Queues p.id p.isSkippable w' := w.queues_noticeAll _
  have hresumed : w'.Queues p.id p.isSkippable
      (p'.emit .resumed (p'.entered w' p.isSkippable)) := by
    have hrecord := Registry.record?_enter w'.registry p.id p.id p.graph start p.isSkippable
      p.conversation
    rw [if_pos rfl] at hrecord
    exact World.queues_resumed (World.eventsOf_emit_self p' .resumed _) hrecord rfl
  exact (hnoticed.trans hresumed).trans (World.queues_noticeAll _ _)

theorem queues_resumeBeginning (p : Playback β) (w : World β) (start : Nat) (points : List Nat)
    (parameters : String) (rerun : Bool) :
    w.Queues p.id p.isSkippable (p.resumeBeginning w start points parameters rerun).world := by
  have hinterrupted : w.Queues p.id p.isSkippable (p.interrupted w).2 ∧
      (p.interrupted w).1.id = p.id ∧ (p.interrupted w).1.isSkippable = p.isSkippable := by
    unfold interrupted
    split_ifs
    · have hnotice : w.Queues p.id p.isSkippable (w.notice .resumedWhileRunning) :=
        w.queues_noticeAll [_]
      exact ⟨hnotice.trans (p.queues_kill _), rfl, rfl⟩
    · exact ⟨.refl w, rfl, rfl⟩
  obtain ⟨hqueues, hid, hskippable⟩ := hinterrupted
  have hresumed := (p.interrupted w).1.queues_resumeTurn (p.interrupted w).2 start points
    parameters rerun
  rw [hid, hskippable] at hresumed
  unfold resumeBeginning
  by_cases hp : points = []
  · rw [if_pos hp]
    exact p.queues_playBeginning w start true
  · rw [if_neg hp]
    dsimp only
    split_ifs
    · exact (hqueues.trans hresumed).trans
        ((World.goesOn_endRun _).queues (Turn.keepsPlaces_endRun _))
    · exact hqueues.trans hresumed

theorem queues_updateBeginning (p : Playback β) (w : World β) {id : Nat} {skippable : Bool} :
    w.Queues id skippable (p.updateBeginning w).world := by
  unfold updateBeginning
  split_ifs
  · exact .refl w
  · exact w.queues_noticeAll [_]
  · exact .refl w
  · exact (p.waiting w).queues_kill w
  · exact .refl w
  · exact .refl w

variable [Behaviour β] {fuel : Nat} {op : Operation} {r : Playback β × World β}

theorem queues_pause (p : Playback β) (w : World β) {id : Nat} {skippable : Bool} :
    w.Queues id skippable (p.pause w).2 := by
  refine (p.goesOn_pause w).queues ?_
  by_cases hidle : p.phase ≠ .running ∨ p.skipping = true
  · rw [pause_of_not_playing w hidle]
    exact .refl _
  · obtain ⟨hrun, hskip⟩ : p.phase = .running ∧ p.skipping = false := by simpa using hidle
    rw [pause_of_playing w hrun hskip]
    split_ifs
    · exact w.registry.keepsPlaces_pause _ _ _
    · exact .refl _

/-- A run that is played waits in the skip queue if that is asked for and it can be skipped. -/
theorem queued_play {start : Nat} {queue : Bool} (hs : p.skipping = false)
    (hr : p.play fuel w start queue = some r) {q : Record}
    (hq : r.2.registry.record? p.id = some q) : q.queued = (queue && p.isSkippable) := by
  have hr : p.perform fuel w (.play start queue) = some r := hr
  rw [perform_eq] at hr
  obtain ⟨u, hu, rfl, -⟩ := Turn.changes_run (straight_beginning hs w _) hr
  have hkept : (p.playBeginning w start queue).world.registry.KeepsPlaces u.world.registry :=
    hu.invariant (I := fun u : Turn β =>
      (p.playBeginning w start queue).world.registry.KeepsPlaces u.world.registry) (.refl _)
      fun _ _ hu _ hchange => hu.trans hchange.keepsPlaces
  obtain ⟨q₀, hq₀, hqueued⟩ := hkept p.id q hq
  rw [hqueued]
  have hentered : (p.stopped w).1.id = p.id ∧
      (p.stopped w).1.isSkippable = p.isSkippable := by
    unfold stopped
    split_ifs <;> exact ⟨rfl, rfl⟩
  obtain ⟨hid, hskippable⟩ := hentered
  -- Either there is no such node and so no record any more, or the record has just been made.
  have hrecord : ((p.stopped w).1.playTurn (p.stopped w).2 start queue).world.registry.record?
      p.id = some q₀ → q₀.queued = (queue && p.isSkippable) := by
    intro hfound
    have henter := Registry.record?_enter (p.stopped w).2.registry (p.stopped w).1.id p.id
      (p.stopped w).1.graph start (queue && (p.stopped w).1.isSkippable)
      (p.stopped w).1.conversation
    rw [if_pos hid.symm] at henter
    obtain rfl := Option.some.inj (henter.symm.trans hfound)
    exact congrArg (queue && ·) hskippable
  unfold playBeginning at hq₀
  dsimp only at hq₀
  split_ifs at hq₀
  · change ((p.stopped w).1.kill (p.stopped w).2).2.registry.record? p.id = some q₀ at hq₀
    rw [registry_kill, Registry.record?_drop, if_pos hid.symm] at hq₀
    simp at hq₀
  · exact hrecord hq₀
  · exact hrecord hq₀

/-- Every operation leaves a playback with the place in the skip queue that it should have. -/
theorem queues_perform (hs : p.skipping = false) (hop : op.isReset = false)
    (hr : p.perform fuel w op = some r) : w.Queues p.id p.isSkippable r.2 := by
  have hturn : w.Queues p.id p.isSkippable (p.beginning w op).world →
      w.Queues p.id p.isSkippable r.2 := by
    intro hbeginning
    rw [perform_eq] at hr
    obtain ⟨u, hu, rfl, -⟩ := Turn.changes_run (straight_beginning hs w op) hr
    exact hbeginning.trans hu.queues
  cases op with
  | play start queue => exact hturn (p.queues_playBeginning w start queue)
  | skip start =>
    -- A skip takes the playback out of the queue, but then the run is over and its record is gone.
    obtain ⟨news, hnews, -⟩ := (hears_perform hs hr).eventsOf p.id
    refine ⟨news, hnews, fun r' hr' => ?_⟩
    rw [(skip_leaves hr).registry, Registry.record?_drop, if_pos rfl] at hr'
    simp at hr'
  | pause => exact hturn (p.queues_pause w)
  | resume start points parameters rerun =>
    exact hturn (p.queues_resumeBeginning w start points parameters rerun)
  | kill => exact hturn (p.queues_kill w)
  | update => exact hturn (p.queues_updateBeginning w)
  | reset unqueue => simp [Operation.isReset] at hop

end Playback

end Cutscene
