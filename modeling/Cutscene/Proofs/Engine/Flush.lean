import Cutscene.Behaviour.Builtin
import Cutscene.Proofs.Engine.Fuel
import Cutscene.Proofs.Engine.Handled
import Cutscene.Proofs.Playback.Raising

/-!
# Commands are applied in order

A flush takes up what waits as a batch and applies it command by command; then comes what has been
raised meanwhile. `Engine.Applies` keeps a log of the commands that are applied, each with what was
raised meanwhile. The law of the queue is `Applies.order`: the commands that waited at first and
those raised since are the commands that have been applied and those that still wait, in this order,
the rest of the batch before all others. As long as every command that has its turn can be applied,
a flush comes to an end, and `flushAll_applies` says which commands it has applied then: the first
ones, as many as the budget allows. No operation leaves a command behind (`Handled.commands`).
-/

namespace Cutscene.Engine

variable {β : Type}

theorem commands_cutOff (e : Engine β) (batch : List Command) :
    (e.cutOff batch).world.commands = [] := by
  unfold cutOff
  split_ifs with h
  · exact (List.append_eq_nil_iff.mp h).2
  · exact World.commands_noticeAll _ [_]

variable [Behaviour β] {e e₁ e₂ e' : Engine β} {fuel budget : Nat}
  {begins : Engine β → Nat → Prop}

/-! ### What raises commands -/

/-- Instances raise commands behind those that wait, and take none. -/
theorem Doing.raises {d : Deed β} (h : Doing e d e') (hd : Prompted begins e d) :
    e.world.Raises e'.world := by
  cases h with
  | act _ notices _ hr =>
    exact (e.world.raises_noticeAll notices).trans (Playback.raises_perform hr)
  | brief | thin => exact .refl _
  | note notices => exact e.world.raises_noticeAll notices
  | spawn hs =>
    rcases spawn_cases hs with ⟨rfl, -⟩ | ⟨edition, nodes, notices, parked, -, -, -, -, heq⟩
    · exact .refl _
    · obtain rfl : e' = _ := congrArg Prod.fst heq
      exact e.world.raises_noticeAll notices
  | retire _ =>
    refine .of_eq ?_
    unfold retired
    rw [(foldl_park_instances _ _).2]
  | forget | clear | reset | pass | unqueue | allow | register | reload => exact absurd hd id

theorem Does.raises (h : Does (Prompted begins) e e') : e.world.Raises e'.world :=
  h.invariant (I := fun e' : Engine β => e.world.Raises e'.world) (.refl _)
    fun _ _ _ hraises hd hdoing => hraises.trans (hdoing.raises hd)

theorem raises_apply {command : Command} (h : e.apply fuel command = some e') :
    e.world.Raises e'.world :=
  (does_apply h).prompted.raises

/-! ### A flush, command by command -/

/-- A flush leaves no command behind. -/
theorem commands_flush {batch : List Command} (h : flush fuel budget batch e = some e') :
    e'.world.commands = [] := by
  induction budget generalizing batch e with
  | zero =>
    rw [flush_zero] at h
    obtain rfl := Option.some.inj h
    exact e.commands_cutOff batch
  | succ budget ih =>
    rcases takeUp_cases e batch with hc | ⟨e₀, command, rest, ht⟩
    · rw [flush_of_nil hc] at h
      obtain rfl := Option.some.inj h
      exact (List.append_eq_nil_iff.mp hc).2
    · rw [flush_of_takeUp ht] at h
      obtain ⟨e₁, -, h⟩ := Option.bind_eq_some_iff.mp h
      exact ih h

theorem commands_flushAll (h : e.flushAll fuel = some e') : e'.world.commands = [] :=
  commands_flush h

/-! ### The log of a flush -/

/-- A command that has been applied, and the commands that were raised meanwhile. -/
structure Applied where
  command : Command
  raised : List Command

/-- Commands are applied one after the other, the first one first. What is left of a batch comes
first, then the next batch is taken up. -/
inductive Applies : List Command → Engine β → List Applied → List Command → Engine β → Prop
  | none (batch : List Command) (e : Engine β) : Applies batch e [] batch e
  | next {batch rest batch' raised : List Command} {e e₀ e₁ e' : Engine β} {command : Command}
    {fuel : Nat} {log : List Applied} (ht : e.takeUp batch = (e₀, command :: rest))
    (ha : e₀.apply fuel command = some e₁)
    (hr : e₁.world.commands = e₀.world.commands ++ raised)
    (h : Applies rest e₁ log batch' e') :
    Applies batch e (⟨command, raised⟩ :: log) batch' e'

/-- Every command that has its turn within the budget can be applied. -/
def EachReturns (budget : Nat) (batch : List Command) (e : Engine β) : Prop :=
  ∀ log batch' e' e₀ command rest, Applies batch e log batch' e' → log.length < budget →
    e'.takeUp batch' = (e₀, command :: rest) → ∃ fuel e₁, e₀.apply fuel command = some e₁

/-- What waited and what was raised has been applied or still waits, in one order. -/
theorem Applies.order {batch batch' : List Command} {log : List Applied}
    (h : Applies batch e log batch' e') :
    batch ++ e.world.commands ++ log.flatMap (·.raised) =
      log.map (·.command) ++ (batch' ++ e'.world.commands) := by
  induction h with
  | none batch e => simp
  | @next batch rest batch' raised e e₀ e₁ e' command fuel log ht ha hr _ ih =>
    have htaken := e.takeUp_order batch
    rw [ht] at htaken
    calc batch ++ e.world.commands ++ (raised ++ log.flatMap (·.raised))
        = command :: (rest ++ (e₀.world.commands ++ raised) ++ log.flatMap (·.raised)) := by
          rw [← htaken]
          simp only [List.cons_append, List.append_assoc]
      _ = command :: (log.map (·.command) ++ (batch' ++ e'.world.commands)) := by rw [← hr, ih]

/-- A command that can be applied is applied at the head of a log. -/
theorem Applies.of_apply {batch rest : List Command} {e₀ : Engine β} {command : Command}
    (ht : e.takeUp batch = (e₀, command :: rest)) (ha : e₀.apply fuel command = some e₁) :
    ∃ raised, ∀ log batch' e', Applies rest e₁ log batch' e' →
      Applies batch e (⟨command, raised⟩ :: log) batch' e' := by
  obtain ⟨raised, hraised⟩ : e₀.world.commands <+: e₁.world.commands := raises_apply ha
  exact ⟨raised, fun log batch' e' => .next ht ha hraised.symm⟩

/-- A flush applies commands until none waits or the budget is used up. -/
theorem exists_flush {batch : List Command} (h : e.EachReturns budget batch) :
    ∃ log batch' e₁, Applies batch e log batch' e₁ ∧ log.length ≤ budget ∧
      (batch' ++ e₁.world.commands = [] ∨ log.length = budget) ∧
      ∃ fuel, flush fuel budget batch e = some (e₁.cutOff batch') := by
  induction budget generalizing batch e with
  | zero => exact ⟨[], batch, e, .none batch e, le_rfl, Or.inr rfl, 0, flush_zero 0 batch e⟩
  | succ budget ih =>
    rcases takeUp_cases e batch with hc | ⟨e₀, command, rest, ht⟩
    · refine ⟨[], batch, e, .none batch e, Nat.zero_le _, Or.inl hc, 0, ?_⟩
      rw [flush_of_nil hc, cutOff, if_pos hc]
    · obtain ⟨fuel, e₁, ha⟩ :=
        h [] batch e e₀ command rest (.none batch e) (Nat.succ_pos _) ht
      obtain ⟨raised, hnext⟩ := Applies.of_apply ht ha
      -- Whatever can be applied next could be applied in the whole flush, too.
      have hreturns : e₁.EachReturns budget rest := fun log batch' e₂ e₃ command' rest' hlog hlen =>
        h (_ :: log) batch' e₂ e₃ command' rest' (hnext log batch' e₂ hlog)
          (Nat.succ_lt_succ hlen)
      obtain ⟨log, batch', e₂, hlog, hlen, hend, fuel', hflush⟩ := ih hreturns
      refine ⟨_ :: log, batch', e₂, hnext log batch' e₂ hlog, Nat.succ_le_succ hlen,
        hend.imp_right (congrArg (· + 1)), max fuel fuel', ?_⟩
      -- One amount of fuel does for this command and for all others.
      have ha' := steady_apply _ command ha (Nat.le_max_left fuel fuel')
      have hflush' := steady_flush budget rest e₁ hflush (Nat.le_max_right fuel fuel')
      rw [flush_of_takeUp ht]
      exact Option.bind_eq_some_iff.mpr ⟨e₁, ha', hflush'⟩

/-! ### Between operations -/

omit [Behaviour β] in
theorem commands_collect (e : Engine β) : e.collect.world.commands = e.world.commands := by
  rw [world_collect]

omit [Behaviour β] in
theorem commands_modifyInstance (e : Engine β) (id : Nat)
    (f : Playback β → Playback β × List Notice) :
    (e.modifyInstance id f).world.commands = e.world.commands := by
  unfold modifyInstance
  cases e.instance? id with
  | none => rfl
  | some p => exact World.commands_noticeAll _ _

omit [Behaviour β] in
theorem commands_load (e : Engine β) (data : String) : (e.load data).world.commands = [] :=
  World.commands_noticeAll _ _

theorem commands_conclude (h : e.conclude fuel = some e') : e'.world.commands = [] := by
  obtain ⟨e₁, h₁, rfl⟩ := conclude_cases h
  rw [commands_collect]
  exact commands_flushAll h₁

theorem commands_trigger (he : e.world.commands = []) {graph : String} {trigger : Trigger}
    {answer : Except EngineError Nat} (h : e.trigger fuel graph trigger = some (e', answer)) :
    e'.world.commands = [] := by
  rcases trigger_cases h with ⟨error, -, h₁⟩ | ⟨e₁, id, -, -, h₂⟩
  · -- A graph that is refused raises nothing.
    rcases begin_cases h₁ with ⟨-, -, rfl | rfl⟩ | ⟨_, _, _, _, hok, -⟩
    · exact he
    · exact he
    · simp at hok
  · exact commands_conclude h₂

theorem commands_onInstance (he : e.world.commands = []) {id : Nat}
    {f : Playback β → World β → Option (Playback β × World β)} {answer : Except EngineError Unit}
    (h : e.onInstance fuel id f = some (e', answer)) : e'.world.commands = [] := by
  rcases onInstance_cases h with ⟨-, rfl, -⟩ | ⟨p, r, -, -, h₁, -⟩
  · exact he
  · exact commands_conclude h₁

theorem commands_resumePaused (he : e.world.commands = []) {graph : String} {rerun : Bool}
    {answer : Except EngineError (List Nat)}
    (h : e.resumePaused fuel graph rerun = some (e', answer)) : e'.world.commands = [] := by
  rcases resumePaused_cases h with ⟨error, -, h₁⟩ | ⟨e₁, ids, -, -, h₂⟩
  · rcases resumePausedNow_cases h₁ with ⟨-, -, rfl⟩ | ⟨_, _, _, -, -, hok⟩
    · exact he
    · simp at hok
  · exact commands_conclude h₂

theorem commands_skipRequests (he : e.world.commands = []) {requests : List SkipRequest}
    (h : e.skipRequests fuel requests = some e') : e'.world.commands = [] := by
  induction requests generalizing e with
  | nil =>
    obtain rfl := Option.some.inj h
    exact he
  | cons request rest ih =>
    simp only [skipRequests, Option.bind_eq_bind, Option.bind_eq_some_iff] at h
    obtain ⟨e₁, -, e₂, h₂, h⟩ := h
    exact ih (commands_flushAll h₂) h

theorem commands_updateAll (he : e.world.commands = []) {ids : List Nat}
    (h : e.updateAll fuel ids = some e') : e'.world.commands = [] := by
  induction ids generalizing e with
  | nil =>
    obtain rfl := Option.some.inj h
    exact he
  | cons id rest ih =>
    rw [updateAll] at h
    cases hp : e.instance? id with
    | none =>
      simp only [hp, Option.bind_eq_bind, Option.bind_eq_some_iff] at h
      obtain ⟨e₁, -, e₂, h₂, h⟩ := h
      exact ih (commands_flushAll h₂) h
    | some p =>
      simp only [hp, Option.bind_eq_bind, Option.bind_eq_some_iff] at h
      obtain ⟨e₁, -, e₂, h₂, h⟩ := h
      exact ih (commands_flushAll h₂) h

/-- An operation that begins without commands leaves none behind, whatever it answers. -/
theorem commands_perform {op : Operation β} (he : e.world.commands = [])
    (h : e.perform fuel op = some e') : e'.world.commands = [] := by
  cases op with
  | trigger graph trigger =>
    obtain ⟨answer, hr⟩ := exists_of_map_fst h
    exact commands_trigger he hr
  | skip id | skipFrom id start | pause id | resume id start points parameters rerun =>
    obtain ⟨answer, hr⟩ := exists_of_map_fst h
    exact commands_onInstance he hr
  | resumePaused graph rerun =>
    obtain ⟨answer, hr⟩ := exists_of_map_fst h
    exact commands_resumePaused he hr
  | kill id =>
    obtain ⟨answer, hr⟩ := exists_of_map_fst h
    rcases kill_cases hr with ⟨-, rfl, -⟩ | ⟨h₁, -⟩
    · exact he
    · exact commands_conclude h₁
  | killGraph graph =>
    obtain ⟨answer, hr⟩ := exists_of_map_fst h
    exact commands_conclude (killGraph_cases hr).1
  | skipAll =>
    obtain ⟨e₁, h₁, rfl⟩ := skipAll_cases h
    rw [commands_collect]
    exact commands_skipRequests (e := e.withRegistry e.world.registry.takeQueue.2) he h₁
  | tick nanoseconds =>
    obtain ⟨e₁, h₁, rfl⟩ := tick_cases h
    rw [commands_collect]
    exact commands_updateAll (e := e.advanced nanoseconds) he h₁
  | resetRecord id unqueue =>
    obtain rfl := Option.some.inj h
    unfold Engine.resetRecord
    split_ifs
    · exact he
    · rw [commands_collect]
      exact (commands_modifyInstance e id _).trans he
  | setParameters id _ | setConversation id _ | forgetChoices id =>
    obtain rfl := Option.some.inj h
    exact (commands_modifyInstance e id _).trans he
  | killAll =>
    obtain rfl := Option.some.inj h
    rfl
  | load data =>
    obtain rfl := Option.some.inj h
    exact commands_load e data
  | loadSlot slot =>
    obtain rfl := Option.some.inj h
    exact commands_load e slot.records
  | register _ | addKind _ | setEnabled _ _ | setScene _ | save | setClock _ | setVariables _ =>
    obtain rfl := Option.some.inj h
    exact he

/-- No command waits while a host is at it. -/
theorem Handled.commands (h : e.Handled) : e.world.commands = [] := by
  induction h with
  | start config kinds => rfl
  | perform _ hr ih => exact commands_perform ih hr
  | clear _ id ih => exact (commands_modifyInstance _ id _).trans ih

/-- As long as every command that has its turn returns, a flush comes to an end, with the same
engine however much fuel there is. Commands have then been applied in the order in which they were
raised, those that waited at first before all others, each of them once and none but the first ones
that the budget allows for. If there are more, the rest is dropped and a notice says so; if not,
nothing else has happened. No command waits afterwards, nor does one wait between the operations of
a host. -/
theorem flushAll_applies (e : Engine β) (h : e.EachReturns e.world.config.commandBudget []) :
    (∃ log batch e₁ e',
      let budget := e.world.config.commandBudget
      let order := e.world.commands ++ log.flatMap (·.raised)
      (∃ enough, ∀ fuel, enough ≤ fuel → e.flushAll fuel = some e') ∧
      (∀ fuel e'', e.flushAll fuel = some e'' → e'' = e') ∧
      Applies [] e log batch e₁ ∧ log.length ≤ budget ∧
      (order.length ≤ budget → log.map (·.command) = order ∧ e' = e₁) ∧
      (budget < order.length → log.map (·.command) = order.take budget ∧
        batch ++ e₁.world.commands = order.drop budget ∧
        e' = (e₁.withCommands []).notice .budgetExhausted) ∧
      e'.world.commands = []) ∧
    ∀ e' : Engine β, e'.Handled → e'.world.commands = [] := by
  refine ⟨?_, fun _ => Handled.commands⟩
  obtain ⟨log, batch, e₁, hlog, hlen, hend, fuel₀, hflush⟩ := exists_flush h
  have horder : e.world.commands ++ log.flatMap (·.raised) =
      log.map (·.command) ++ (batch ++ e₁.world.commands) := hlog.order
  have hlength : (log.map Applied.command).length = log.length := List.length_map _
  have hsteady : Steady fun fuel => e.flushAll fuel := steady_flush _ [] e
  refine ⟨log, batch, e₁, e₁.cutOff batch, ⟨fuel₀, fun fuel hle => hsteady hflush hle⟩,
    fun fuel e'' h' => hsteady.unique hflush h', hlog, hlen, fun hfits => ?_,
    fun hmore => ?_, e₁.commands_cutOff batch⟩
  · have hdone : batch ++ e₁.world.commands = [] := by
      rcases hend with hdone | hfull
      · exact hdone
      · -- The budget has been used up with the last command.
        rw [horder, List.length_append, hlength] at hfits
        exact List.eq_nil_of_length_eq_zero (by omega)
    rw [horder, hdone, List.append_nil]
    exact ⟨rfl, if_pos hdone⟩
  · have hleft : batch ++ e₁.world.commands ≠ [] := by
      intro hdone
      rw [horder, hdone, List.append_nil, hlength] at hmore
      omega
    have hfull : log.length = e.world.config.commandBudget := hend.resolve_left hleft
    rw [horder, ← hfull, ← hlength, List.take_left, List.drop_left]
    exact ⟨rfl, rfl, if_neg hleft⟩

/-! ### A graph that starts itself -/

/-- A graph that is started by a command. -/
theorem apply_start {graph : String} {id start : Nat} {queue : Bool} {p : Playback β}
    {r : Playback β × World β} (hg : e.graphs.contains graph = true)
    (hd : e.isEnabled graph = true) (hs : e.spawn graph = .ok (e₁, id))
    (hp : e₁.instance? id = some p) (hr : p.play fuel e₁.world start queue = some r) :
    e.apply fuel (.start graph start queue false) = some (e₁.put r) := by
  have hbegin : e.begin fuel graph { start := some start, queue } = some (e₁.put r, .ok id) :=
    begin_of_play hg hd hs hp hr
  simp [apply, hbegin]

/-- A kind of nodes that start a graph at its second node. -/
def relayKind : NodeKind Builtin where
  name := "again"
  validate _ := .ok ()
  prepare _ := .ok (.runGraph ⟨"relay", 1, false⟩)

/-- A graph whose second node starts it once more. -/
def relay : Graph where
  id := "relay"
  name := "relay"
  nodes := [{ kind := "again" }, { kind := "again" }]

/-- The relay is to be started, and no more than two commands are applied in one go. -/
def relaying : Engine Builtin :=
  ((ofKinds { commandBudget := 2 } [relayKind]).register relay).withCommands
    [.start "relay" 1 true false]

/-- Each time the relay is started it raises the command to start it again. -/
theorem apply_relay : ∃ e₁ e₂,
    (relaying.withCommands []).apply 2 (.start "relay" 1 true false) = some e₁ ∧
    e₁.world.commands = [.start "relay" 1 true false] ∧
    (e₁.withCommands []).apply 2 (.start "relay" 1 true false) = some e₂ :=
  ⟨_, _, apply_start (by decide) (by decide) rfl rfl
      ((Playback.play_of_ne_zero 2 _ true Nat.one_ne_zero (by decide)).trans rfl), rfl,
    apply_start (by decide) (by decide) rfl rfl
      ((Playback.play_of_ne_zero 2 _ true Nat.one_ne_zero (by decide)).trans rfl)⟩

theorem eachReturns_relay : relaying.EachReturns 2 [] := by
  obtain ⟨a, b, ha, hraised, hb⟩ := apply_relay
  intro log batch e₁ e₀ command rest hlog hlen ht
  cases hlog with
  | none =>
    obtain ⟨rfl, hcommands⟩ := Prod.mk.inj ht
    obtain ⟨rfl, rfl⟩ := List.cons.inj hcommands
    exact ⟨2, a, ha⟩
  | next ht' ha' hr' hlog =>
    obtain ⟨rfl, hcommands⟩ := Prod.mk.inj ht'
    obtain ⟨rfl, rfl⟩ := List.cons.inj hcommands
    obtain rfl := (steady_apply _ _).unique ha ha'
    cases hlog with
    | none =>
      -- The batch is used up, and the next one is what the relay has raised.
      rw [takeUp, hraised] at ht
      obtain ⟨rfl, hcommands⟩ := Prod.mk.inj ht
      obtain ⟨rfl, rfl⟩ := List.cons.inj hcommands
      exact ⟨2, b, hb⟩
    | next =>
      simp only [List.length_cons] at hlen
      omega

/-- The relay would go on for ever, but comes to an end. -/
theorem flushAll_applies_relay : relaying.EachReturns 2 [] ∧
    ∃ e', (∃ enough, ∀ fuel, enough ≤ fuel → relaying.flushAll fuel = some e') ∧
      e'.world.commands = [] := by
  obtain ⟨⟨-, -, -, e', henough, -, -, -, -, -, hnone⟩, -⟩ :=
    flushAll_applies relaying eachReturns_relay
  exact ⟨eachReturns_relay, e', henough, hnone⟩

end Cutscene.Engine
