import Cutscene.Proofs.Playback.Links

/-!
# What is heard of a playback

`World.Hears` says of a later world what the events have in common that happened meanwhile: they are
of one playback and of one graph, and of certain kinds. An operation on a playback is only heard of
that playback (`Playback.hears_perform`), and takes up a run with the events that
`Playback.Operation.Opens` allows for and with no others.
-/

namespace Cutscene

variable {β : Type}

/-- The event takes up a run, a new one or one that was paused. -/
def Event.Kind.isOpening : Event.Kind → Bool
  | .began _ | .resumed => true
  | _ => false

/-- The operation may take up a run of the playback with such an event. -/
def Playback.Operation.Opens (op : Playback.Operation) (p : Playback β) (kind : Event.Kind) :
    Prop :=
  match op with
  | .play _ _ => True
  | .skip _ => p.isActive = false
  | .resume _ points _ _ => points = [] ∨ kind = .resumed
  | .pause | .kill | .update | .reset _ => False

namespace World

/-- A later world. The events that happened meanwhile are of one playback of a graph, and of certain
kinds. -/
def Hears (w : World β) (id : Nat) (graph : String) (kinds : Event.Kind → Prop) (w' : World β) :
    Prop :=
  ∃ entries, w'.journal = entries ++ w.journal ∧
    ∀ event, .event event ∈ entries →
      event.playback = id ∧ event.graph = graph ∧ kinds event.kind

/-- A later world in which no run has been taken up meanwhile. -/
abbrev GoesOn (w : World β) (id : Nat) (graph : String) (w' : World β) : Prop :=
  w.Hears id graph (fun kind => kind.isOpening = false) w'

variable {w w' w'' : World β} {id : Nat} {graph : String} {kinds kinds' : Event.Kind → Prop}

theorem Hears.of_journal_eq (h : w'.journal = w.journal) : w.Hears id graph kinds w' :=
  ⟨[], h, by simp⟩

theorem Hears.refl (w : World β) : w.Hears id graph kinds w := .of_journal_eq rfl

theorem Hears.trans (h : w.Hears id graph kinds w') (h' : w'.Hears id graph kinds w'') :
    w.Hears id graph kinds w'' := by
  obtain ⟨entries, hj, hentries⟩ := h
  obtain ⟨more, hj', hmore⟩ := h'
  refine ⟨more ++ entries, by rw [hj', hj, List.append_assoc], fun event hevent => ?_⟩
  exact (List.mem_append.mp hevent).elim (hmore event) (hentries event)

theorem Hears.mono (h : w.Hears id graph kinds w') (hk : ∀ kind, kinds kind → kinds' kind) :
    w.Hears id graph kinds' w' := by
  obtain ⟨entries, hj, hentries⟩ := h
  refine ⟨entries, hj, fun event hevent => ?_⟩
  obtain ⟨hid, hgraph, hkind⟩ := hentries event hevent
  exact ⟨hid, hgraph, hk _ hkind⟩

/-- What is added to the journal is added to what was heard of each playback. -/
theorem eventsOf_of_journal_eq {entries : List (Entry β)} (h : w'.journal = entries ++ w.journal)
    (j : Nat) :
    w'.eventsOf j = w.eventsOf j ++ (entries.filterMap (Entry.kindFor? j)).reverse := by
  rw [World.eventsOf, World.eventsOf, h, List.filterMap_append, List.reverse_append]

theorem news_of_journal_eq {entries : List (Entry β)} (h : w'.journal = entries ++ w.journal)
    (j : Nat) : w.news w' j = (entries.filterMap (Entry.kindFor? j)).reverse :=
  news_of_eventsOf_eq_append (eventsOf_of_journal_eq h j)

/-- The news of a playback are events of it. -/
theorem mem_kindsFor {entries : List (Entry β)} {j : Nat} {kind : Event.Kind} :
    kind ∈ (entries.filterMap (Entry.kindFor? j)).reverse ↔
      ∃ event, .event event ∈ entries ∧ event.playback = j ∧ event.kind = kind := by
  rw [List.mem_reverse, List.mem_filterMap]
  constructor
  · rintro ⟨event | call | notice, hmem, hkind⟩
    · simp only [Entry.kindFor?] at hkind
      split_ifs at hkind with hid
      exact ⟨event, hmem, hid, Option.some.inj hkind⟩
    · -- A call and a notice are heard of no playback.
      simp [Entry.kindFor?] at hkind
    · simp [Entry.kindFor?] at hkind
  · rintro ⟨event, hmem, rfl, rfl⟩
    exact ⟨.event event, hmem, by simp [Entry.kindFor?]⟩

/-- What is heard is added to what was heard before. -/
theorem Hears.eventsOf (h : w.Hears id graph kinds w') (j : Nat) :
    ∃ news, w'.eventsOf j = w.eventsOf j ++ news ∧ ∀ kind ∈ news, kinds kind := by
  obtain ⟨entries, hj, hentries⟩ := h
  refine ⟨_, eventsOf_of_journal_eq hj j, fun kind hkind => ?_⟩
  obtain ⟨event, hmem, -, rfl⟩ := mem_kindsFor.mp hkind
  exact (hentries event hmem).2.2

/-! ### What is noted in the journal -/

theorem hears_noteCall (w : World β) (call : Call β) :
    w.Hears id graph kinds (w.note (.call call)) :=
  ⟨[.call call], rfl, by simp⟩

theorem hears_noticeAll (w : World β) (notices : List Notice) :
    w.Hears id graph kinds (w.noticeAll notices) := by
  rw [noticeAll_eq]
  exact ⟨_, rfl, by simp⟩

theorem hears_absorb (w : World β) (o : Outcome β) : w.Hears id graph kinds (w.absorb o) :=
  hears_noticeAll { w with vars := o.vars, commands := w.commands ++ o.commands } o.notices

theorem hears_absorbChoice (w : World β) (c : Choice β) :
    w.Hears id graph kinds (w.absorbChoice c) :=
  hears_noticeAll { w with vars := c.vars } c.notices

theorem hears_emit (p : Playback β) {kind : Event.Kind} (h : kinds kind) (w : World β) :
    w.Hears p.id p.graph kinds (p.emit kind w) := by
  refine ⟨[.event ⟨p.id, p.graph, kind⟩], rfl, fun event hevent => ?_⟩
  obtain rfl : event = ⟨p.id, p.graph, kind⟩ := by simpa using hevent
  exact ⟨rfl, rfl, h⟩

theorem goesOn_emit (p : Playback β) {kind : Event.Kind} (h : kind.isOpening = false)
    (w : World β) :
    w.GoesOn p.id p.graph (p.emit kind w) :=
  hears_emit p h w

theorem goesOn_kill (p : Playback β) (w : World β) : w.GoesOn p.id p.graph (p.kill w).2 := by
  unfold Playback.kill
  dsimp only
  split_ifs
  · -- Only a run that is under way comes to an end.
    exact (Hears.of_journal_eq rfl).trans (goesOn_emit p rfl _)
  · exact .of_journal_eq rfl

theorem goesOn_endRun (t : Turn β) :
    t.world.GoesOn t.playback.id t.playback.graph t.endRun.world := by
  have hended : t.world.GoesOn t.playback.id t.playback.graph (t.playback.emit (.ended false)
      { t.world with registry := t.world.registry.drop t.playback.id }) :=
    (Hears.of_journal_eq rfl).trans (goesOn_emit t.playback rfl _)
  unfold Turn.endRun
  dsimp only
  split
  · -- The end is followed by the conversation.
    exact hended.trans (goesOn_emit t.playback rfl _)
  · exact hended

theorem goesOn_endPause (t : Turn β) :
    t.world.GoesOn t.playback.id t.playback.graph t.endPause.world :=
  (Hears.of_journal_eq rfl).trans (goesOn_emit t.playback rfl _)

end World

/-! ### Turns -/

namespace Turn

variable [Behaviour β] {t u : Turn β}

/-- A change is made by one playback. -/
theorem Change.id_eq (h : t.Change u) :
    u.playback.id = t.playback.id ∧ u.playback.graph = t.playback.graph := by
  cases h <;> exact ⟨rfl, rfl⟩

/-- No run is taken up in the course of a turn. -/
theorem Change.goesOn (h : t.Change u) :
    t.world.GoesOn t.playback.id t.playback.graph u.world := by
  cases h with
  | noticed => exact World.hears_noticeAll t.world [_]
  | skipped | ran =>
    exact (World.hears_noteCall t.world _).trans (World.hears_absorb _ _)
  | chosen => exact (World.hears_noteCall t.world _).trans (World.hears_absorbChoice _ _)
  | ended => exact World.goesOn_endRun t
  | paused => exact World.goesOn_endPause t
  | killed => exact World.goesOn_kill t.playback t.world
  | _ => exact .of_journal_eq rfl

theorem Changes.id_eq (h : t.Changes u) :
    u.playback.id = t.playback.id ∧ u.playback.graph = t.playback.graph :=
  h.invariant (I := fun u : Turn β => u.playback.id = t.playback.id ∧
      u.playback.graph = t.playback.graph) ⟨rfl, rfl⟩
    fun _ _ hu _ hchange => ⟨hchange.id_eq.1.trans hu.1, hchange.id_eq.2.trans hu.2⟩

theorem Changes.goesOn (h : t.Changes u) :
    t.world.GoesOn t.playback.id t.playback.graph u.world := by
  induction h with
  | refl => exact .refl _
  | tail hs hgoes ih =>
    have hnext := hgoes.2.goesOn
    -- The playback that makes the change is still the one that the turn began with.
    rw [(Changes.id_eq hs).1, (Changes.id_eq hs).2] at hnext
    exact ih.trans hnext

end Turn

/-! ### Operations -/

namespace Playback

variable {p : Playback β} {w : World β}

theorem stopped_id (p : Playback β) (w : World β) :
    (p.stopped w).1.id = p.id ∧ (p.stopped w).1.graph = p.graph := by
  unfold stopped
  split_ifs <;> exact ⟨rfl, rfl⟩

theorem interrupted_id (p : Playback β) (w : World β) :
    (p.interrupted w).1.id = p.id ∧ (p.interrupted w).1.graph = p.graph := by
  unfold interrupted
  split_ifs <;> exact ⟨rfl, rfl⟩

theorem goesOn_stopped (p : Playback β) (w : World β) : w.GoesOn p.id p.graph (p.stopped w).2 := by
  unfold stopped
  split_ifs
  · exact World.goesOn_kill p w
  · exact .refl w

theorem goesOn_interrupted (p : Playback β) (w : World β) :
    w.GoesOn p.id p.graph (p.interrupted w).2 := by
  unfold interrupted
  split_ifs
  · exact (w.hears_noticeAll [.resumedWhileRunning]).trans (World.goesOn_kill p _)
  · exact .refl w

theorem hears_playBeginning (p : Playback β) (w : World β) (start : Nat) (queue : Bool) :
    w.Hears p.id p.graph (fun _ => True) (p.playBeginning w start queue).world := by
  obtain ⟨hid, hgraph⟩ := p.stopped_id w
  have hstopped : w.Hears p.id p.graph (fun _ => True) (p.stopped w).2 :=
    (p.goesOn_stopped w).mono fun _ _ => trivial
  -- A start out of range kills the playback once more.
  have hkilled : (p.stopped w).2.Hears p.id p.graph (fun _ => True)
      ((p.stopped w).1.kill (p.stopped w).2).2 := by
    rw [← hid, ← hgraph]
    exact (World.goesOn_kill _ _).mono fun _ _ => trivial
  have hbegan : (p.stopped w).2.Hears p.id p.graph (fun _ => True)
      ((p.stopped w).1.playTurn (p.stopped w).2 start queue).world := by
    rw [← hid, ← hgraph]
    have hemit : ∀ v : World β, v.Hears (p.stopped w).1.id (p.stopped w).1.graph (fun _ => True)
        (((p.stopped w).1.restarted start).emit (.began start) v) :=
      fun v => World.hears_emit ((p.stopped w).1.restarted start) trivial v
    exact (World.Hears.of_journal_eq rfl).trans (hemit _)
  unfold playBeginning
  dsimp only
  split_ifs
  · exact hstopped.trans hkilled
  · exact hstopped.trans hbegan
  · exact hstopped.trans hbegan

/-- A skip is a run of its own unless one is under way. -/
theorem hears_skipTurn (p : Playback β) (w : World β) (start : Nat) :
    w.Hears p.id p.graph (fun kind => kind.isOpening = true → p.isActive = false)
      (p.skipTurn w start).world := by
  have hidentity := p.identity_skippingFrom start
  have hid : (p.skippingFrom start).id = p.id := congrArg Identity.id hidentity
  have hgraph : (p.skippingFrom start).graph = p.graph := congrArg Identity.graph hidentity
  -- What is allowed depends on the playback before the skip, which makes it active.
  have hemit : ∀ (kind : Event.Kind) (v : World β), (kind.isOpening = true → p.isActive = false) →
      v.Hears p.id p.graph (fun kind => kind.isOpening = true → p.isActive = false)
        ((p.skippingFrom start).emit kind v) := by
    intro kind v hkind
    rw [← hid, ← hgraph]
    exact World.hears_emit (p.skippingFrom start) hkind v
  have hskip : ∀ v : World β, v.Hears p.id p.graph
      (fun kind => kind.isOpening = true → p.isActive = false)
      ((p.skippingFrom start).emit (.skipped start) v) :=
    fun v => hemit _ v fun hopening => by simp [Event.Kind.isOpening] at hopening
  unfold skipTurn
  dsimp only
  split_ifs with hp
  · exact (World.Hears.of_journal_eq rfl).trans (hskip _)
  · -- A skip of its own begins a run, and only then it is skipped.
    exact ((World.Hears.of_journal_eq rfl).trans (hemit (.began start) _
      fun _ => by simpa using hp)).trans (hskip _)

theorem hears_skipBeginning (p : Playback β) (w : World β) (start : Nat) :
    w.Hears p.id p.graph (fun kind => kind.isOpening = true → p.isActive = false)
      (p.skipBeginning w start).world := by
  unfold skipBeginning
  split_ifs
  · exact (World.goesOn_kill p w).mono fun kind hkind hopening => by simp [hkind] at hopening
  · exact p.hears_skipTurn w start

theorem hears_resumeTurn (p : Playback β) (w : World β) (start : Nat) (points : List Nat)
    (parameters : String) (rerun : Bool) :
    w.Hears p.id p.graph (fun kind => kind.isOpening = true → kind = .resumed)
      (p.resumeTurn w start points parameters rerun).world := by
  let p' := p.revived start (p.restored parameters).1
  let w' := p'.entered (w.noticeAll (p.restored parameters).2) p.isSkippable
  have hentered : w.Hears p.id p.graph (fun kind => kind.isOpening = true → kind = .resumed) w' :=
    (w.hears_noticeAll _).trans (.of_journal_eq rfl)
  have hresumed : w'.Hears p.id p.graph (fun kind => kind.isOpening = true → kind = .resumed)
      (p'.emit .resumed w') := World.hears_emit p' (fun _ => rfl) w'
  exact (hentered.trans hresumed).trans ((p'.emit .resumed w').hears_noticeAll _)

theorem hears_resumeBeginning (p : Playback β) (w : World β) (start : Nat) {points : List Nat}
    (hp : points ≠ []) (parameters : String) (rerun : Bool) :
    w.Hears p.id p.graph (fun kind => kind.isOpening = true → kind = .resumed)
      (p.resumeBeginning w start points parameters rerun).world := by
  have hgoesOn : ∀ {v v' : World β}, v.GoesOn p.id p.graph v' →
      v.Hears p.id p.graph (fun kind => kind.isOpening = true → kind = .resumed) v' :=
    fun h => h.mono fun kind hkind hopening => by simp [hkind] at hopening
  obtain ⟨hid, hgraph⟩ := p.interrupted_id w
  have hresumed := hears_resumeTurn (p.interrupted w).1 (p.interrupted w).2 start points parameters
    rerun
  have hended := World.goesOn_endRun
    ((p.interrupted w).1.resumeTurn (p.interrupted w).2 start points parameters rerun)
  have hsame : ((p.interrupted w).1.resumeTurn (p.interrupted w).2 start points parameters
      rerun).playback.id = p.id ∧ ((p.interrupted w).1.resumeTurn (p.interrupted w).2 start points
        parameters rerun).playback.graph = p.graph := ⟨hid, hgraph⟩
  rw [hid, hgraph] at hresumed
  rw [hsame.1, hsame.2] at hended
  have hbegun := (hgoesOn (p.goesOn_interrupted w)).trans hresumed
  unfold resumeBeginning
  rw [if_neg hp]
  dsimp only
  split_ifs
  · -- None of the points is a node, so the run is over as soon as it has been resumed.
    exact hbegun.trans (hgoesOn hended)
  · exact hbegun

theorem goesOn_updateBeginning (p : Playback β) (w : World β) :
    w.GoesOn p.id p.graph (p.updateBeginning w).world := by
  unfold updateBeginning
  split_ifs
  · exact .refl w
  · exact w.hears_noticeAll [.unregistered]
  · exact .refl w
  · -- A scene change cuts the run off.
    exact World.goesOn_kill (p.waiting w) w
  · exact .refl w
  · exact .refl w

variable [Behaviour β] {fuel : Nat} {op : Operation} {r : Playback β × World β}

theorem goesOn_pause (p : Playback β) (w : World β) : w.GoesOn p.id p.graph (p.pause w).2 := by
  by_cases hidle : p.phase ≠ .running ∨ p.skipping = true
  · rw [pause_of_not_playing w hidle]
    exact .refl w
  · obtain ⟨hrun, hskip⟩ : p.phase = .running ∧ p.skipping = false := by simpa using hidle
    rw [pause_of_playing w hrun hskip]
    split_ifs
    · exact World.goesOn_endPause ⟨p.pausing, w, []⟩
    · exact .refl w

theorem hears_beginning (p : Playback β) (w : World β) (op : Operation) :
    w.Hears p.id p.graph (fun kind => kind.isOpening = true → op.Opens p kind)
      (p.beginning w op).world := by
  have hgoesOn : ∀ {v v' : World β}, v.GoesOn p.id p.graph v' →
      v.Hears p.id p.graph (fun kind => kind.isOpening = true → op.Opens p kind) v' :=
    fun h => h.mono fun kind hkind hopening => by simp [hkind] at hopening
  cases op with
  | play start queue => exact (p.hears_playBeginning w start queue).mono fun _ _ _ => trivial
  | skip start => exact p.hears_skipBeginning w start
  | pause => exact hgoesOn (p.goesOn_pause w)
  | resume start points parameters rerun =>
    by_cases hp : points = []
    · -- Without points the run is not resumed but begins anew.
      have hplayed := p.hears_playBeginning w start true
      change w.Hears p.id p.graph _ (p.resumeBeginning w start points parameters rerun).world
      rw [resumeBeginning, if_pos hp]
      exact hplayed.mono fun _ _ _ => Or.inl hp
    · exact (p.hears_resumeBeginning w start hp parameters rerun).mono
        fun _ hkind hopening => Or.inr (hkind hopening)
  | kill => exact hgoesOn (World.goesOn_kill p w)
  | update => exact hgoesOn (p.goesOn_updateBeginning w)
  | reset unqueue =>
    refine .of_journal_eq ?_
    change (p.reset w unqueue).2.journal = w.journal
    unfold reset
    split_ifs <;> rfl

/-- An operation on a playback is heard of no other, and what it takes up it may take up. -/
theorem hears_perform (hs : p.skipping = false) (hr : p.perform fuel w op = some r) :
    w.Hears p.id p.graph (fun kind => kind.isOpening = true → op.Opens p kind) r.2 := by
  have hidentity := identity_perform hr
  rw [perform_eq] at hr
  obtain ⟨u, hu, rfl, -⟩ := Turn.changes_run (straight_beginning hs w op) hr
  have hid : u.playback.id = p.id := congrArg Identity.id hidentity
  have hgraph : u.playback.graph = p.graph := congrArg Identity.graph hidentity
  have hgoesOn := hu.goesOn
  rw [← hu.id_eq.1, ← hu.id_eq.2, hid, hgraph] at hgoesOn
  exact (p.hears_beginning w op).trans (hgoesOn.mono fun kind hkind hopening => by
    simp [hkind] at hopening)

/-! ### Who is active -/

omit [Behaviour β] in
/-- A playback that gets active is heard to take up a run. -/
theorem isActive_of_passage {p' : Playback β} {reg reg' : Registry} {kinds : List Event.Kind}
    (h : Passage p p' reg reg' kinds) (ha : p'.isActive = true) :
    p.isActive = true ∨ ∃ kind ∈ kinds, kind.isOpening = true := by
  cases h with
  | calm hphase =>
    left
    unfold isActive at ha ⊢
    rw [hphase] at ha
    exact ha
  | entered start queue hphase ho =>
    cases ho with
    | began | beganSkipping => exact Or.inr ⟨_, List.mem_cons_self, rfl⟩
    -- To skip a run that is under way takes up none.
    | skipped hactive => exact Or.inl hactive
    | resumed => exact Or.inr ⟨_, List.mem_cons_self, rfl⟩
  | paused parameters hphase => exact Or.inl (by simp [isActive, hphase])
  | ended hphase => exact Or.inl (by simp [isActive, hphase])
  | killed hphase => simp [isActive, hphase] at ha
  | lapsed hphase => exact Or.inl (by simp [isActive, hphase])

omit [Behaviour β] in
theorem isActive_of_stages {s s' : Playback β × World β} (h : Stages s s') :
    ∃ kinds, s'.2.eventsOf s.1.id = s.2.eventsOf s.1.id ++ kinds ∧
      (s'.1.isActive = true → s.1.isActive = true ∨ ∃ kind ∈ kinds, kind.isOpening = true) := by
  induction h with
  | refl => exact ⟨[], (List.append_nil _).symm, Or.inl⟩
  | @tail u v hs hstage ih =>
    obtain ⟨kinds, hkinds, hactive⟩ := ih
    obtain ⟨more, hpassage, hmore⟩ := hstage.passage
    rw [Stages.id_eq hs] at hmore
    refine ⟨kinds ++ more, by rw [hmore, hkinds, List.append_assoc], fun ha => ?_⟩
    rcases isActive_of_passage hpassage ha with hbefore | ⟨kind, hkind, hopening⟩
    · refine (hactive hbefore).imp_right ?_
      rintro ⟨kind, hkind, hopening⟩
      -- The playback was active before the last stage, so the stages before that account for it.
      exact ⟨kind, List.mem_append_left _ hkind, hopening⟩
    · exact Or.inr ⟨kind, List.mem_append_right _ hkind, hopening⟩

theorem isActive_perform (hop : op.isReset = false) (hr : p.perform fuel w op = some r)
    (ha : r.1.isActive = true) :
    p.isActive = true ∨ ∃ kind ∈ w.news r.2 p.id, kind.isOpening = true := by
  obtain ⟨kinds, hkinds, hactive⟩ := isActive_of_stages (stages_perform hop hr)
  rw [World.news_of_eventsOf_eq_append hkinds]
  exact hactive ha

end Playback

end Cutscene
