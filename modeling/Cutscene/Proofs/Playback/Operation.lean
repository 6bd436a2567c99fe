import Cutscene.Proofs.Playback.Stage

/-!
# Operations on a playback

`Playback.Operation` lists what a host can do with a playback, `Playback.perform` does it. Those
that work off branches begin a turn: `playTurn`, `skipTurn` and `resumeTurn` say which, and
`play_eq`, `skip_eq`, `resume_of_ne_nil` and `update_of_isLive` say what else can happen. By
`stages_perform` every operation is a sequence of stages, but for the reset of the record, of which
`perform_cases` says all there is to say.
-/

namespace Cutscene.Playback

variable {β : Type}

/-- What a host can do with a playback. -/
inductive Operation where
  | play (start : Nat) (queue : Bool)
  | skip (start : Nat)
  | pause
  | resume (start : Nat) (points : List Nat) (parameters : String) (rerun : Bool)
  | kill
  | update
  /-- Resets the record, and with it the playback. -/
  | reset (unqueue : Bool)

/-- Only the record of the playback is reset. -/
def Operation.isReset : Operation → Bool
  | .reset _ => true
  | _ => false

/-- The playback takes up what has become due. -/
def Operation.isUpdate : Operation → Bool
  | .update => true
  | _ => false

/-- Resets the record of a playback, if it has one, and halts the playback. -/
def reset (p : Playback β) (w : World β) (unqueue : Bool) : Playback β × World β :=
  if (w.registry.record? p.id).isNone then (p, w)
  else (p.halt, { w with registry := w.registry.modify p.id (·.reset unqueue) })

/-- Does something with a playback. -/
def perform [Behaviour β] (fuel : Nat) (p : Playback β) (w : World β) :
    Operation → Option (Playback β × World β)
  | .play start queue => p.play fuel w start queue
  | .skip start => p.skip fuel w start
  | .pause => some (p.pause w)
  | .resume start points parameters rerun => p.resume fuel w start points parameters rerun
  | .kill => some (p.kill w)
  | .update => p.update fuel w
  | .reset unqueue => some (p.reset w unqueue)

/-! ### The turns that operations begin -/

/-- A playback that goes on from a node, all branches and choices of earlier runs forgotten. -/
def restarted (p : Playback β) (start : Nat) : Playback β :=
  { p.clearBranches.forgetChoices with
    resumePoints := [], pauseRequested := false, start, phase := .running }

/-- The world in which a playback is registered as running. -/
def entered (p : Playback β) (w : World β) (queue : Bool) : World β :=
  { w with registry := w.registry.enter p.id p.graph p.start queue p.conversation }

/-- The turn that playing begins with. -/
def playTurn (p : Playback β) (w : World β) (start : Nat) (queue : Bool) : Turn β :=
  let p' := p.restarted start
  { playback := p'
    world := p'.emit (.began start) (p'.entered w (queue && p.isSkippable))
    ready := [{ index := start, step := .visit }] }

/-- A playback that has been told to stop, if it was active. -/
def stopped (p : Playback β) (w : World β) : Playback β × World β :=
  if p.isActive then p.kill w else (p, w)

/-- A playback about to be skipped from a node on. What was chosen so far is only known to a run
that is under way. -/
def skippingFrom (p : Playback β) (start : Nat) : Playback β :=
  { if p.isActive then p.clearBranches else p.clearBranches.forgetChoices with
    resumePoints := [], pauseRequested := false, skipping := true, hops := 0, start,
    phase := .running }

/-- The turn that skipping begins with. -/
def skipTurn (p : Playback β) (w : World β) (start : Nat) : Turn β :=
  let p' := p.skippingFrom start
  let w := p'.entered w false
  { playback := p'
    world := p'.emit (.skipped start) (if p.isActive then w else p'.emit (.began start) w)
    ready := [{ index := start, step := .visit }] }

/-- A playback that does not run, so that it can be resumed. -/
def interrupted (p : Playback β) (w : World β) : Playback β × World β :=
  if p.phase = .running then p.kill (w.notice .resumedWhileRunning) else (p, w)

/-- The parameters as a text restores them. An empty text leaves them alone. -/
def restored (p : Playback β) (parameters : String) : ParameterSet × List Notice :=
  if parameters.isEmpty then (p.parameters, []) else p.parameters.restore parameters

/-- A playback that goes on with other parameters. -/
def revived (p : Playback β) (start : Nat) (parameters : ParameterSet) : Playback β :=
  { p.clearBranches with
    resumePoints := [], pauseRequested := false, start, parameters, phase := .running }

/-- The turn that resuming begins with. -/
def resumeTurn (p : Playback β) (w : World β) (start : Nat) (points : List Nat)
    (parameters : String) (rerun : Bool) : Turn β :=
  let p' := p.revived start (p.restored parameters).1
  let w := p'.entered (w.noticeAll (p.restored parameters).2) p.isSkippable
  { playback := p'
    world := (p'.emit .resumed w).noticeAll (p'.validPoints points).2
    ready := (p'.validPoints points).1.map
      ({ index := ·, step := if rerun then .visit else .resolve }) }

theorem stopped_isActive (p : Playback β) (w : World β) : (p.stopped w).1.isActive = false := by
  unfold stopped
  split_ifs with h
  · rfl
  · simpa using h

theorem stopped_nodes_length (p : Playback β) (w : World β) :
    (p.stopped w).1.nodes.length = p.nodes.length := by
  unfold stopped
  split_ifs
  · exact List.length_map _
  · rfl

theorem stages_stopped (p : Playback β) (w : World β) : Stages (p, w) (p.stopped w) := by
  unfold stopped
  split_ifs
  · exact .single (.kill p w)
  · exact .refl

theorem interrupted_phase (p : Playback β) (w : World β) :
    (p.interrupted w).1.phase ≠ .running := by
  unfold interrupted
  split_ifs with h
  · simp [kill]
  · exact h

theorem stages_interrupted (p : Playback β) (w : World β) : Stages (p, w) (p.interrupted w) := by
  unfold interrupted
  split_ifs
  · have hnotice : Stage (p, w) (p, w.notice .resumedWhileRunning) :=
      .of_quiet rfl rfl (fun _ => rfl) (w.quiet_notice _)
    exact .tail (.single hnotice) (.kill _ _)
  · exact .refl

variable [Behaviour β]

theorem play_eq (fuel : Nat) (p : Playback β) (w : World β) (start : Nat) (queue : Bool) :
    p.play fuel w start queue =
      let s := p.stopped w
      let t := s.1.playTurn s.2 start queue
      if s.1.nodes.length ≤ start then some (s.1.kill s.2)
      else if 0 < s.1.settings.startDelay && start = 0 then
        some (t.defer { index := 0, step := .visit,
                        wake := t.playback.after s.1.settings.startDelay t.world }).view
      else t.run fuel := by
  rfl

/-- Only the first node can be delayed. -/
theorem play_of_ne_zero (fuel : Nat) {p : Playback β} (w : World β) {start : Nat} (queue : Bool)
    (h : start ≠ 0) (hs : start < p.nodes.length) :
    p.play fuel w start queue =
      ((p.stopped w).1.playTurn (p.stopped w).2 start queue).run fuel := by
  rw [play_eq]
  dsimp only
  rw [if_neg (by rw [stopped_nodes_length]; omega), if_neg (by simp [h])]

theorem skip_eq (fuel : Nat) (p : Playback β) (w : World β) (start : Nat) :
    p.skip fuel w start =
      if p.nodes.length ≤ start then some (p.kill w) else (p.skipTurn w start).run fuel := by
  rfl

theorem resume_of_nil (fuel : Nat) (p : Playback β) (w : World β) (start : Nat)
    (parameters : String) (rerun : Bool) :
    p.resume fuel w start [] parameters rerun = p.play fuel w start true := by
  rfl

theorem resume_of_ne_nil (fuel : Nat) (p : Playback β) (w : World β) (start : Nat)
    {points : List Nat} (hp : points ≠ []) (parameters : String) (rerun : Bool) :
    p.resume fuel w start points parameters rerun =
      let s := p.interrupted w
      let t := s.1.resumeTurn s.2 start points parameters rerun
      if (t.playback.validPoints points).1 = [] then some t.endRun.view else t.run fuel := by
  cases points with
  | nil => exact absurd rfl hp
  | cons point rest =>
    unfold resume
    simp only [List.isEmpty_cons, Bool.false_eq_true, if_false, List.isEmpty_iff]
    rfl

/-- A playback that has been asked to pause: a branch that waits to arrive at a node is kept as a
place to go on from. -/
def pausing (p : Playback β) : Playback β :=
  { p with
    pauseRequested := true
    resumePoints := p.pending.filterMap p.resumePoint?
    pending := p.pending.filter fun b => (p.resumePoint? b).isNone }

theorem pause_of_not_playing {p : Playback β} (w : World β)
    (h : p.phase ≠ .running ∨ p.skipping = true) : p.pause w = (p, w) := by
  unfold pause
  rw [if_pos]
  rcases h with h | h <;> simp [h]

theorem pause_of_playing {p : Playback β} (w : World β) (h : p.phase = .running)
    (hs : p.skipping = false) :
    p.pause w =
      if p.pausing.pending = [] then (Turn.endPause ⟨p.pausing, w, []⟩).view
      else (p.pausing, w) := by
  unfold pause
  rw [if_neg (by simp [h, hs])]
  simp only [List.isEmpty_iff]
  rfl

theorem update_of_nothing_waiting (fuel : Nat) {p : Playback β} (w : World β)
    (h : p.phase ≠ .running ∨ p.pending = []) : p.update fuel w = some (p, w) := by
  unfold update
  rw [if_pos]
  rcases h with h | h <;> simp [h]

theorem update_of_not_isLive (fuel : Nat) {p : Playback β} {w : World β} (h : p.phase = .running)
    (h' : p.pending ≠ []) (hw : w.registry.isLive p.id = false) :
    p.update fuel w =
      some ({ p.clearBranches with phase := .finished }, w.notice .unregistered) := by
  unfold update
  rw [if_neg (by simp [h, h']), if_pos (by simp [hw])]

/-- The branches whose time has come. -/
def due (p : Playback β) (w : World β) : List Branch :=
  p.pending.filter (·.wake.isDue w.clock)

/-- A playback with the branches that go on waiting. -/
def waiting (p : Playback β) (w : World β) : Playback β :=
  { p with pending := p.pending.filter (!·.wake.isDue w.clock) }

theorem update_of_isLive (fuel : Nat) {p : Playback β} {w : World β} (h : p.phase = .running)
    (h' : p.pending ≠ []) (hw : w.registry.isLive p.id = true) :
    p.update fuel w =
      if p.due w = [] then some (p.waiting w, w)
      else if w.sceneLoading then
        if p.settings.survivesSceneChange && !p.isSkippable then some ((p.waiting w).kill w)
        else some ({ p.waiting w with pending := (p.waiting w).pending ++ p.due w }, w)
      else Turn.run fuel { playback := p.waiting w, world := w, ready := p.due w } := by
  unfold update
  rw [if_neg (by simp [h, h']), if_neg (by simp [hw])]
  simp only [List.partition_eq_filter_filter, List.isEmpty_iff]
  rfl

/-! ### Operations as sequences of stages -/

omit [Behaviour β] in
/-- A playback that gets going is registered, and observers hear of it. -/
theorem stage_entered {p p' : Playback β} {w w' : World β} {kinds : List Event.Kind} (queue : Bool)
    (hi : p'.identity = p.identity) (hp : p'.phase = .running) (ho : Opening p kinds)
    (hw : (p'.entered w queue).Tells p'.id kinds w') : Stage (p, w) (p', w') := by
  have hid : p'.id = p.id := congrArg Identity.id hi
  have hgraph : p'.graph = p.graph := congrArg Identity.graph hi
  have hconversation : p'.conversation = p.conversation := congrArg Identity.conversation hi
  refine ⟨hi, hw.clock, hw.config, hw.sceneLoading, fun id hne => ?_, kinds, ?_, ?_⟩
  · have hne' : p'.id ≠ id := hid ▸ Ne.symm hne
    rw [hw.events, if_neg hne', List.append_nil]
    rfl
  · rw [hw.registry, entered, hid, hgraph, hconversation]
    exact .entered _ _ hp ho
  · rw [hw.events, if_pos hid]
    rfl

omit [Behaviour β] in
theorem stage_playTurn {p : Playback β} (w : World β) (start : Nat) (queue : Bool)
    (h : p.isActive = false) : Stage (p, w) (p.playTurn w start queue).view :=
  stage_entered _ rfl rfl (.began h start) (World.tells_emit _ _ _)

omit [Behaviour β] in
theorem identity_skippingFrom (p : Playback β) (start : Nat) :
    (p.skippingFrom start).identity = p.identity := by
  unfold skippingFrom
  split_ifs <;> rfl

omit [Behaviour β] in
theorem stage_skipTurn (p : Playback β) (w : World β) (start : Nat) :
    Stage (p, w) (p.skipTurn w start).view := by
  have hi := p.identity_skippingFrom start
  cases h : p.isActive with
  | true =>
    refine stage_entered false hi rfl (.skipped h start) ?_
    simp only [skipTurn, h, if_true]
    exact World.tells_emit _ _ _
  | false =>
    refine stage_entered false hi rfl (.beganSkipping h start) ?_
    simp only [skipTurn, h, Bool.false_eq_true, if_false]
    exact (World.tells_emit _ _ _).append (World.tells_emit _ _ _)

omit [Behaviour β] in
theorem stages_resumeTurn {p : Playback β} (w : World β) (start : Nat) (points : List Nat)
    (parameters : String) (rerun : Bool) (h : p.phase ≠ .running) :
    Stages (p, w) (p.resumeTurn w start points parameters rerun).view := by
  have hrestore : Stage (p, w) (p, w.noticeAll (p.restored parameters).2) :=
    .of_quiet rfl rfl (fun _ => rfl) (w.quiet_noticeAll _)
  have henter : Stage (p, w.noticeAll (p.restored parameters).2)
      (p.revived start (p.restored parameters).1, _) :=
    stage_entered p.isSkippable rfl rfl (.resumed h) (World.tells_emit _ _ _)
  -- Resume points that are out of range are told of last.
  have hpoints := Stage.of_quiet (p := p.revived start (p.restored parameters).1) rfl rfl
    (fun _ => rfl) (World.quiet_noticeAll
      ((p.revived start (p.restored parameters).1).emit .resumed
        ((p.revived start (p.restored parameters).1).entered
          (w.noticeAll (p.restored parameters).2) p.isSkippable))
      ((p.revived start (p.restored parameters).1).validPoints points).2)
  exact (Relation.ReflTransGen.single hrestore).tail henter |>.tail hpoints

theorem stages_play {fuel : Nat} {p : Playback β} {w : World β} {start : Nat} {queue : Bool}
    {r : Playback β × World β} (h : p.play fuel w start queue = some r) : Stages (p, w) r := by
  rw [play_eq] at h
  have hstart : Stages (p, w) ((p.stopped w).1.playTurn (p.stopped w).2 start queue).view :=
    (p.stages_stopped w).tail (stage_playTurn _ start queue (p.stopped_isActive w))
  dsimp only at h
  split_ifs at h
  · -- There is no such node to start from.
    obtain rfl := Option.some.inj h
    exact (p.stages_stopped w).tail (.kill _ _)
  · -- The first node has to wait.
    obtain rfl := Option.some.inj h
    exact hstart.tail ((Turn.calm_defer _ _).stage rfl)
  · exact hstart.trans (Turn.stages_run h)

theorem stages_skip {fuel : Nat} {p : Playback β} {w : World β} {start : Nat}
    {r : Playback β × World β} (h : p.skip fuel w start = some r) : Stages (p, w) r := by
  rw [skip_eq] at h
  split_ifs at h
  · obtain rfl := Option.some.inj h
    exact .single (.kill p w)
  · exact .head (p.stage_skipTurn w start) (Turn.stages_run h)

theorem stages_resume {fuel : Nat} {p : Playback β} {w : World β} {start : Nat} {points : List Nat}
    {parameters : String} {rerun : Bool} {r : Playback β × World β}
    (h : p.resume fuel w start points parameters rerun = some r) : Stages (p, w) r := by
  by_cases hp : points = []
  · subst hp
    rw [resume_of_nil] at h
    exact stages_play h
  · rw [resume_of_ne_nil fuel p w start hp] at h
    have hstart := (p.stages_interrupted w).trans
      (stages_resumeTurn (p.interrupted w).2 start points parameters rerun (p.interrupted_phase w))
    dsimp only at h
    split_ifs at h
    · -- None of the resume points is a node.
      obtain rfl := Option.some.inj h
      exact hstart.tail (Turn.stage_endRun _ rfl)
    · exact hstart.trans (Turn.stages_run h)

theorem stages_pause (p : Playback β) (w : World β) : Stages (p, w) (p.pause w) := by
  by_cases h : p.phase ≠ .running ∨ p.skipping = true
  · rw [pause_of_not_playing w h]
  · obtain ⟨hrun, hskip⟩ : p.phase = .running ∧ p.skipping = false := by simpa using h
    have hask : Stage (p, w) (p.pausing, w) :=
      .of_quiet rfl rfl (fun hp => by simp [hrun] at hp) (.refl w)
    rw [pause_of_playing w hrun hskip]
    split_ifs
    · exact .tail (.single hask) (Turn.stage_endPause ⟨p.pausing, w, []⟩ hrun)
    · exact .single hask

theorem stages_update {fuel : Nat} {p : Playback β} {w : World β} {r : Playback β × World β}
    (h : p.update fuel w = some r) : Stages (p, w) r := by
  by_cases hrest : p.phase ≠ .running ∨ p.pending = []
  · rw [update_of_nothing_waiting fuel w hrest] at h
    obtain rfl := Option.some.inj h
    exact .refl
  · obtain ⟨hrun, hpending⟩ : p.phase = .running ∧ p.pending ≠ [] := by simpa using hrest
    have hwait : ∀ q : Playback β, q.identity = p.identity → q.phase = p.phase →
        Stage (p, w) (q, w) := fun q hi hq =>
      .of_quiet hi hq (fun hp => by simp [hrun] at hp) (.refl w)
    cases hlive : w.registry.isLive p.id with
    | false =>
      rw [update_of_not_isLive fuel hrun hpending hlive] at h
      obtain rfl := Option.some.inj h
      have hquiet := w.quiet_notice .unregistered
      refine .single ⟨rfl, rfl, rfl, rfl, fun id _ => hquiet.events id, [],
        .lapsed hrun hlive rfl, ?_⟩
      rw [List.append_nil]
      exact hquiet.events p.id
    | true =>
      rw [update_of_isLive fuel hrun hpending hlive] at h
      -- Nothing is due; or a scene is being loaded, which kills the playback or makes it wait; or
      -- the branches that are due are taken up.
      split_ifs at h
      · obtain rfl := Option.some.inj h
        exact .single (hwait _ rfl rfl)
      · obtain rfl := Option.some.inj h
        exact .tail (.single (hwait (p.waiting w) rfl rfl)) (.kill _ w)
      · obtain rfl := Option.some.inj h
        exact .single (hwait _ rfl rfl)
      · exact .head (hwait (p.waiting w) rfl rfl) (Turn.stages_run h)

/-- Whatever a host does with a playback, short of resetting its record, is a sequence of stages. -/
theorem stages_perform {fuel : Nat} {p : Playback β} {w : World β} {op : Operation}
    {r : Playback β × World β} (hop : op.isReset = false) (h : p.perform fuel w op = some r) :
    Stages (p, w) r := by
  cases op with
  | play start queue => exact stages_play h
  | skip start => exact stages_skip h
  | pause =>
    obtain rfl := Option.some.inj h
    exact p.stages_pause w
  | resume start points parameters rerun => exact stages_resume h
  | kill =>
    obtain rfl := Option.some.inj h
    exact .single (.kill p w)
  | update => exact stages_update h
  | reset unqueue => simp [Operation.isReset] at hop

/-- Resetting the record of a playback, if there is one, halts the playback. -/
theorem perform_cases {fuel : Nat} {p : Playback β} {w : World β} {op : Operation}
    {r : Playback β × World β} (h : p.perform fuel w op = some r) :
    Stages (p, w) r ∨ w.registry.record? p.id ≠ none ∧ ∃ unqueue, r =
      (p.halt, { w with registry := w.registry.modify p.id (·.reset unqueue) }) := by
  cases hop : op.isReset with
  | false => exact Or.inl (stages_perform hop h)
  | true =>
    cases op with
    | reset unqueue =>
      obtain rfl := Option.some.inj h
      unfold reset
      split_ifs with hnone
      · exact Or.inl .refl
      · exact Or.inr ⟨by simpa using hnone, unqueue, rfl⟩
    | _ => simp [Operation.isReset] at hop

omit [Behaviour β] in
theorem identity_halt (p : Playback β) : p.halt.identity = p.identity := by
  unfold halt
  dsimp only
  split_ifs <;> rfl

omit [Behaviour β] in
theorem halt_phase (p : Playback β) :
    p.halt.phase = if p.phase = .running then .idle else p.phase := by
  unfold halt
  dsimp only
  split_ifs <;> simp_all [clearBranches]

omit [Behaviour β] in
theorem halt_pending (p : Playback β) : p.halt.pending = [] := by
  unfold halt
  dsimp only
  split_ifs <;> rfl

omit [Behaviour β] in
theorem halt_resumePoints (p : Playback β) : p.halt.resumePoints = p.resumePoints := by
  unfold halt
  dsimp only
  split_ifs <;> rfl

omit [Behaviour β] in
theorem halt_phase_ne_running (p : Playback β) : p.halt.phase ≠ .running := by
  rw [halt_phase]
  split_ifs with h
  · simp
  · exact h

end Cutscene.Playback
