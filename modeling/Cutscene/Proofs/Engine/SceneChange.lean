import Cutscene.Proofs.Engine.Flush
import Cutscene.Proofs.Engine.Handled
import Cutscene.Proofs.Playback.SceneChange

/-!
# Ticks during a scene change

While a scene is being loaded a tick goes from instance to instance as ever, but none takes up a
branch (`Playback.throughScene`), so no behaviour is called, no command comes up, and the tick
returns however little fuel it has (`tick_of_sceneLoading`). `scene_change_puts_off` says what any
number of such ticks comes to: some instances are killed, the branches of the others change places.
-/

namespace Cutscene

variable {β : Type}

/-- What a clock shows tick after tick. -/
def Clock.ticks (c : Clock) : List Nat → List Clock
  | [] => []
  | nanoseconds :: rest => c.advance nanoseconds :: (c.advance nanoseconds).ticks rest

/-- The event of a playback that is killed. -/
def Playback.death (p : Playback β) : Event := ⟨p.id, p.graph, .ended true⟩

/-- What updates make of the world while a scene is being loaded. -/
def World.throughScene (w : World β) (updated : List (Playback β)) : World β :=
  updated.foldl (fun w p => (p.throughScene w).2) w

/-- The registry without the records of some playbacks. -/
def Registry.without (reg : Registry) (ids : List Nat) : Registry :=
  ⟨reg.records.filter fun r => !ids.any fun id => r.playback = some id⟩

theorem Registry.without_nil (reg : Registry) : reg.without [] = reg :=
  congrArg Registry.mk (List.filter_eq_self.mpr fun _ _ => rfl)

theorem Registry.without_append (reg : Registry) (ids ids' : List Nat) :
    reg.without (ids ++ ids') = (reg.without ids).without ids' := by
  simp [without, List.filter_filter, List.any_append, Bool.and_comm]

theorem Registry.without_singleton (reg : Registry) (id : Nat) :
    reg.without [id] = reg.drop id := by
  simp [without, drop]

theorem Registry.without_perm (reg : Registry) {ids ids' : List Nat} (h : ids.Perm ids') :
    reg.without ids = reg.without ids' := by
  simp only [without, h.any_eq]

theorem Registry.record?_without {reg : Registry} {ids : List Nat} {id : Nat} (h : id ∉ ids) :
    (reg.without ids).record? id = reg.record? id := by
  simp only [record?, without, List.find?_filter]
  congr 1
  funext r
  by_cases hr : r.playback = some id
  · have hkept : ∀ id' ∈ ids, ¬ id = id' := fun id' hid' heq => h (heq ▸ hid')
    simpa [hr] using hkept
  · simp [hr]

namespace Playback

theorem throughScene_kept {p : Playback β} {w : World β} (h : p.isCutOff [w.clock] = false) :
    p.throughScene w = ({ p with pending := p.pendingThrough w.clock }, w) :=
  if_neg (Bool.not_eq_true _ ▸ h)

theorem throughScene_killed {p : Playback β} {w : World β} (h : p.isCutOff [w.clock] = true) :
    p.throughScene w = p.kill w :=
  if_pos h

/-- What becomes of the playback depends on the time alone. -/
theorem throughScene_fst_congr (p : Playback β) {w w' : World β} (h : w'.clock = w.clock) :
    (p.throughScene w').1 = (p.throughScene w).1 := by
  cases hcut : p.isCutOff [w.clock] with
  | true =>
    rw [throughScene_killed hcut, throughScene_killed (h ▸ hcut)]
    rfl
  | false => rw [throughScene_kept hcut, throughScene_kept (h ▸ hcut), h]

theorem throughScene_id (p : Playback β) (w : World β) : (p.throughScene w).1.id = p.id := by
  cases hcut : p.isCutOff [w.clock] with
  | true => rw [throughScene_killed hcut]; rfl
  | false => rw [throughScene_kept hcut]

theorem throughScene_graph (p : Playback β) (w : World β) :
    (p.throughScene w).1.graph = p.graph := by
  cases hcut : p.isCutOff [w.clock] with
  | true => rw [throughScene_killed hcut]; rfl
  | false => rw [throughScene_kept hcut]

/-- All that a playback changes in the world is that it is killed. -/
theorem throughScene_world (p : Playback β) (w : World β) :
    (p.throughScene w).2 = { w with
      registry := w.registry.without (([p].filter (·.isCutOff [w.clock])).map (·.id))
      journal := (([p].filter (·.isCutOff [w.clock])).map fun p => .event p.death).reverse ++
        w.journal } := by
  cases hcut : p.isCutOff [w.clock] with
  | true =>
    have hactive : p.isActive = true := by
      simp [isActive, isRunning_of_isCutOff hcut]
    have hgone : [p].filter (·.isCutOff [w.clock]) = [p] := by simp [hcut]
    rw [throughScene_killed hcut, hgone, List.map_singleton, Registry.without_singleton]
    simp only [kill, hactive, if_true]
    rfl
  | false =>
    have hgone : [p].filter (·.isCutOff [w.clock]) = [] := by simp [hcut]
    rw [throughScene_kept hcut, hgone, List.map_nil, Registry.without_nil]
    rfl

/-- What is cut off in the course of several updates is cut off by the first one or later on. -/
theorem isCutOff_cons (p : Playback β) (w : World β) (later : List Clock) :
    p.isCutOff (w.clock :: later) =
      (p.isCutOff [w.clock] || (p.throughScene w).1.isCutOff later) := by
  cases hcut : p.isCutOff [w.clock] with
  | true => simp_all [isCutOff]
  | false =>
    rw [throughScene_kept hcut, Bool.false_or]
    by_cases hrun : p.phase = .running
    · -- The branches are the same ones, and none of them cuts the playback off now.
      have hany : ∀ moment, (putOff w.clock p.pending).any (·.wake.isDue moment) =
          p.pending.any (·.wake.isDue moment) := fun moment =>
        (putOff_perm w.clock p.pending).any_eq
      simp only [isCutOff, isRunning, isSkippable, pendingThrough, hrun, if_true, hany,
        List.any_cons, List.any_nil, Bool.or_false] at hcut ⊢
      rw [Bool.and_or_distrib_left, hcut, Bool.false_or]
    · simp [isCutOff, isRunning, hrun]

end Playback

/-- A world in which a scene is being loaded loses the records of the playbacks that are killed, and
hears that they are. -/
theorem World.throughScene_eq (w : World β) (updated : List (Playback β)) :
    w.throughScene updated = { w with
      registry := w.registry.without ((updated.filter (·.isCutOff [w.clock])).map (·.id))
      journal := ((updated.filter (·.isCutOff [w.clock])).map fun p => .event p.death).reverse ++
        w.journal } := by
  induction updated generalizing w with
  | nil => simp [throughScene, Registry.without_nil]
  | cons p rest ih =>
    have hstep : w.throughScene (p :: rest) = (p.throughScene w).2.throughScene rest := rfl
    have hsplit : (p :: rest).filter (·.isCutOff [w.clock]) =
        [p].filter (·.isCutOff [w.clock]) ++ rest.filter (·.isCutOff [w.clock]) :=
      List.filter_append [p] rest
    rw [hstep, ih, p.throughScene_world w, hsplit, List.map_append, List.map_append,
      Registry.without_append, List.reverse_append, List.append_assoc]

namespace Engine

variable [Behaviour β]

/-- Several ticks, one after the other. -/
def ticks (fuel : Nat) (e : Engine β) : List Nat → Option (Engine β)
  | [] => some e
  | nanoseconds :: rest => (e.tick fuel nanoseconds).bind fun e => e.ticks fuel rest

omit [Behaviour β] in
/-- Some instances have been updated while a scene is being loaded, and others have not. -/
def throughScene (e : Engine β) (updated rest : List (Playback β)) : Engine β :=
  { e with
    instances := updated.map (fun p => (p.throughScene e.world).1) ++ rest
    world := e.world.throughScene updated }

variable {e : Engine β}

omit [Behaviour β] in
/-- The instances that have not been updated find their records untouched. -/
theorem Linked.record?_throughScene (h : e.Linked) {updated rest : List (Playback β)}
    {p : Playback β} (hi : e.instances = updated ++ p :: rest) :
    (e.world.throughScene updated).registry.record? p.id = e.world.registry.record? p.id := by
  have hids := h.tables.ids
  rw [hi, List.map_append, List.map_cons] at hids
  rw [World.throughScene_eq]
  refine Registry.record?_without fun hmem => ?_
  have hmem' := (List.filter_sublist.map (fun q : Playback β => q.id)).subset hmem
  exact (List.nodup_append.mp hids).2.2 p.id hmem' p.id List.mem_cons_self rfl

/-- The next instance is updated. -/
theorem Linked.updateOne_throughScene (h : e.Linked) (hs : e.world.sceneLoading = true)
    (fuel : Nat) {updated rest : List (Playback β)} {p : Playback β}
    (hi : e.instances = updated ++ p :: rest) :
    (e.throughScene updated (p :: rest)).updateOne fuel p.id =
      some (e.throughScene (updated ++ [p]) rest) := by
  have hids := h.tables.ids
  rw [hi, List.map_append, List.map_cons, List.nodup_append] at hids
  obtain ⟨-, hrest, hbefore⟩ := hids
  -- Ids are unique, so only the instance in question is found.
  have hnot : ∀ q ∈ updated, (q.throughScene e.world).1.id ≠ p.id := fun q hq => by
    rw [Playback.throughScene_id]
    exact hbefore q.id (List.mem_map_of_mem hq) p.id List.mem_cons_self
  have hafter : ∀ q ∈ rest, q.id ≠ p.id := fun q hq heq =>
    (List.nodup_cons.mp hrest).1 (heq ▸ List.mem_map_of_mem hq)
  have hfind : (e.throughScene updated (p :: rest)).instance? p.id = some p := by
    have hnone : (updated.map fun q => (q.throughScene e.world).1).find? (·.id = p.id) = none := by
      simpa using hnot
    simp [instance?, throughScene, List.find?_append, hnone]
  let w := e.world.throughScene updated
  have hw : w = e.world.throughScene updated := rfl
  -- What has been cut off in the same tick changes neither the clock nor the scene.
  have hclock : w.clock = e.world.clock := by rw [hw, World.throughScene_eq]
  -- The records of the others are gone, but not the one of this instance.
  have hlive : p.IsLive w := fun hrun => by
    have hlinked := (h.linked p (by simp [hi])).live hrun
    unfold Registry.isLive at hlinked ⊢
    rw [hw, h.record?_throughScene hi]
    exact hlinked
  have hloading : w.sceneLoading = true := by rw [hw, World.throughScene_eq]; exact hs
  have hone : (p.throughScene w).1 = (p.throughScene e.world).1 :=
    p.throughScene_fst_congr hclock
  have hput : (updated.map (fun q => (q.throughScene e.world).1) ++ p :: rest).map
        (fun q => if q.id = (p.throughScene w).1.id then (p.throughScene w).1 else q) =
      (updated ++ [p]).map (fun q => (q.throughScene e.world).1) ++ rest := by
    rw [Playback.throughScene_id, hone, List.map_append, List.map_cons, if_pos rfl,
      List.map_append, List.append_assoc]
    congr 1
    · refine (List.map_congr_left fun q hq => ?_).trans (List.map_id _)
      obtain ⟨q, hmem, rfl⟩ := List.mem_map.mp hq
      exact if_neg (hnot q hmem)
    · refine congrArg (List.cons _) ((List.map_congr_left fun q hq => ?_).trans (List.map_id _))
      exact if_neg (hafter q hq)
  have hworld : (p.throughScene w).2 = e.world.throughScene (updated ++ [p]) := by
    simp [hw, World.throughScene]
  unfold updateOne
  rw [hfind]
  change (p.update fuel w).map _ = _
  rw [Playback.update_eq_throughScene fuel hloading hlive, Option.map_some]
  simp only [Engine.put, throughScene, hput, hworld]

/-- One instance after the other is updated. No command comes up. -/
theorem Linked.updateAll_throughScene (h : e.Linked) (hs : e.world.sceneLoading = true)
    (hc : e.world.commands = []) (fuel : Nat) {updated rest : List (Playback β)}
    (hi : e.instances = updated ++ rest) :
    (e.throughScene updated rest).updateAll fuel (rest.map (·.id)) =
      some (e.throughScene e.instances []) := by
  induction rest generalizing updated with
  | nil =>
    rw [hi, List.append_nil]
    rfl
  | cons p rest ih =>
    have hquiet : (e.throughScene (updated ++ [p]) rest).world.commands = [] := by
      simp only [throughScene, World.throughScene_eq]
      exact hc
    rw [List.map_cons, updateAll_cons, h.updateOne_throughScene hs fuel hi, Option.bind_some,
      flushAll_of_quiet hquiet, Option.bind_some]
    exact ih (by rw [hi, List.append_assoc]; rfl)

omit [Behaviour β] in
/-- Nothing is left to be cleared away: an instance that is killed outlasts scenes, and so it is
kept. -/
theorem Settled.throughScene (h : e.Settled) (hl : e.Linked) :
    (e.throughScene e.instances []).Settled where
  tidy r hr := by
    simp only [Engine.throughScene, World.throughScene_eq] at hr
    exact h.tidy r (List.mem_of_mem_filter hr)
  swept p' hp' := by
    simp only [Engine.throughScene, List.append_nil, List.mem_map] at hp'
    obtain ⟨p, hp, rfl⟩ := hp'
    cases hcut : p.isCutOff [e.world.clock] with
    | true =>
      have hsurvives : p.settings.survivesSceneChange = true := by
        simp only [Playback.isCutOff, Bool.and_eq_true] at hcut
        exact hcut.1.1.2
      rw [Playback.throughScene_killed hcut]
      simp [isDone, Playback.kill, Playback.clearBranches, hsurvives]
    | false =>
      rw [Playback.throughScene_kept hcut, ← h.swept p hp]
      refine isDone_congr rfl rfl ?_
      simp only [Engine.throughScene, World.throughScene_eq]
      refine Registry.record?_without fun hmem => ?_
      -- With one instance for each id, the record belongs to none that is killed.
      obtain ⟨q, hq, heq⟩ := List.mem_map.mp hmem
      obtain ⟨hmem, hkilled⟩ := List.mem_filter.mp hq
      obtain rfl := List.inj_on_of_nodup_map hl.tables.ids hmem hp heq
      simp [hcut] at hkilled

/-- A tick while a scene is being loaded. -/
theorem Handled.tick_of_sceneLoading (h : e.Handled) (hs : e.world.sceneLoading = true)
    (fuel nanoseconds : Nat) : e.tick fuel nanoseconds =
      some ((e.advanced nanoseconds).throughScene e.instances []) := by
  have hlinked : (e.advanced nanoseconds).Linked := h.linked.beside rfl rfl rfl
  have hsettled : (e.advanced nanoseconds).Settled := h.settled.of_instances_eq rfl rfl
  have hall : (e.advanced nanoseconds).updateAll fuel (e.instances.map (·.id)) =
      some ((e.advanced nanoseconds).throughScene e.instances []) :=
    hlinked.updateAll_throughScene hs h.commands fuel (List.nil_append _).symm
  change ((e.advanced nanoseconds).updateAll fuel (e.instances.map (·.id))).bind
    (fun e => some e.collect) = _
  rw [hall, Option.bind_some]
  exact congrArg some (hsettled.throughScene hlinked).collect_eq

end Engine

/-- What becomes of a playback in the course of a scene change. -/
def Playback.Weathers (p : Playback β) (moments : List Clock) (p' : Playback β) : Prop :=
  if p.isCutOff moments then p' = (p.kill {}).1
  else ∃ row, p' = { p with pending := row } ∧
    if p.phase = .running then PutOff moments p.pending row else row = p.pending

theorem Playback.weathers_nil (p : Playback β) : p.Weathers [] p := by
  unfold Weathers
  rw [if_neg (by simp [isCutOff])]
  refine ⟨p.pending, rfl, ?_⟩
  split_ifs
  · exact .refl _
  · rfl

theorem Playback.Weathers.cons {p p' : Playback β} {w : World β} {later : List Clock}
    (h : (p.throughScene w).1.Weathers later p') : p.Weathers (w.clock :: later) p' := by
  unfold Weathers at h ⊢
  rw [isCutOff_cons]
  cases hcut : p.isCutOff [w.clock] with
  | true =>
    -- A playback that has been killed is left alone from then on.
    have hover : (p.kill w).1.isCutOff later = false := by simp [isCutOff, isRunning, kill]
    rw [throughScene_killed hcut, hover, if_neg Bool.false_ne_true] at h
    obtain ⟨row, rfl, hrow⟩ := h
    rw [if_neg (by simp [kill])] at hrow
    rw [hrow, Bool.true_or, if_pos rfl]
    rfl
  | false =>
    rw [Bool.false_or]
    rw [throughScene_kept hcut] at h ⊢
    split_ifs at h ⊢ with hlater hrun
    · exact h
    · obtain ⟨row, rfl, hrow⟩ := h
      rw [pendingThrough, if_pos hrun] at hrow
      exact ⟨row, rfl, hrow.cons⟩
    · obtain ⟨row, rfl, hrow⟩ := h
      rw [pendingThrough, if_neg hrun] at hrow
      exact ⟨row, rfl, hrow⟩

namespace Engine

/-- What becomes of an engine in the course of a scene change: of the instances each for itself, of
the records those of the instances that are killed, and in the journal their ends. Everything else
stays. -/
structure Weathers (e : Engine β) (moments : List Clock) (e' : Engine β) : Prop where
  instances : List.Forall₂ (fun p p' => p.Weathers moments p') e.instances e'.instances
  heard : ∃ deaths : List Event,
    deaths.Perm ((e.instances.filter (·.isCutOff moments)).map (·.death)) ∧
    e'.world.journal = (deaths.map .event).reverse ++ e.world.journal
  frame : e' = { e with
    instances := e'.instances
    world := { e.world with
      clock := moments.getLastD e.world.clock
      registry := e.world.registry.without ((e.instances.filter (·.isCutOff moments)).map (·.id))
      journal := e'.world.journal } }

theorem weathers_nil (e : Engine β) : e.Weathers [] e where
  instances := List.forall₂_same.mpr fun p _ => p.weathers_nil
  heard := ⟨[], by simp [Playback.isCutOff], rfl⟩
  frame := by
    have hnone : e.instances.filter (·.isCutOff []) = [] := by simp [Playback.isCutOff]
    rw [hnone, List.map_nil, Registry.without_nil]
    rfl

/-- What holds of two parts of a list that do not overlap. -/
theorem filter_or_perm {α : Type} {a b : α → Bool} {l : List α}
    (h : ∀ x ∈ l, a x = true → b x = false) :
    (l.filter fun x => a x || b x).Perm (l.filter a ++ l.filter b) := by
  have hsplit := List.filter_append_perm a (l.filter fun x => a x || b x)
  rw [List.filter_filter, List.filter_filter] at hsplit
  have hleft : l.filter (fun x => a x && (a x || b x)) = l.filter a :=
    List.filter_congr fun x _ => by cases a x <;> simp
  have hright : l.filter (fun x => !a x && (a x || b x)) = l.filter b :=
    List.filter_congr fun x hx => by
      have hnot := h x hx
      cases ha : a x <;> simp_all
  rw [hleft, hright] at hsplit
  exact hsplit.symm

/-- A tick and the ticks after it. -/
theorem Weathers.cons {e e' : Engine β} {nanoseconds : Nat} {later : List Clock}
    (h : ((e.advanced nanoseconds).throughScene e.instances []).Weathers later e') :
    e.Weathers (e.world.clock.advance nanoseconds :: later) e' := by
  let w : World β := (e.advanced nanoseconds).world
  have hcut : ∀ p : Playback β, p.isCutOff (w.clock :: later) =
      (p.isCutOff [w.clock] || (p.throughScene w).1.isCutOff later) := fun p =>
    p.isCutOff_cons w later
  have hdisjoint : ∀ p ∈ e.instances, p.isCutOff [w.clock] = true →
      (p.throughScene w).1.isCutOff later = false := fun p _ hkilled => by
    rw [Playback.throughScene_killed hkilled]
    simp [Playback.isCutOff, Playback.isRunning, Playback.kill]
  have hgone : (e.instances.filter (·.isCutOff (w.clock :: later))).Perm
      (e.instances.filter (·.isCutOff [w.clock]) ++
        e.instances.filter fun p => (p.throughScene w).1.isCutOff later) := by
    simp only [hcut]
    -- An instance is cut off in the first tick or in a later one, and not in both.
    exact filter_or_perm hdisjoint
  have hrest : ((e.advanced nanoseconds).throughScene e.instances []).instances.filter
        (·.isCutOff later) =
      (e.instances.filter fun p => (p.throughScene w).1.isCutOff later).map
        fun p => (p.throughScene w).1 := by
    simp only [throughScene, List.append_nil, List.filter_map]
    rfl
  refine ⟨?_, ?_, ?_⟩
  · have hall := h.instances
    simp only [throughScene, List.append_nil, List.forall₂_map_left_iff] at hall
    exact hall.imp fun _ _ hp => hp.cons
  · obtain ⟨deaths, hdeaths, hjournal⟩ := h.heard
    have hsame : Playback.death ∘ (fun p : Playback β => (p.throughScene w).1) =
        Playback.death := funext fun p => by
      simp [Playback.death, Playback.throughScene_id, Playback.throughScene_graph]
    rw [hrest, List.map_map, hsame] at hdeaths
    refine ⟨(e.instances.filter (·.isCutOff [w.clock])).map (·.death) ++ deaths, ?_, ?_⟩
    · have hmap := hgone.map (·.death)
      rw [List.map_append] at hmap
      exact (hdeaths.append_left _).trans hmap.symm
    · rw [hjournal]
      simp [throughScene, World.throughScene_eq, w, advanced]
  · have hsame : (fun p : Playback β => p.id) ∘ (fun p : Playback β => (p.throughScene w).1) =
        fun p => p.id := funext fun p => p.throughScene_id w
    have hmap := hgone.map (·.id)
    rw [List.map_append] at hmap
    refine h.frame.trans ?_
    rw [hrest, List.map_map, hsame]
    simp only [throughScene, World.throughScene_eq, List.getLastD_cons]
    rw [← Registry.without_append, ← (e.advanced nanoseconds).world.registry.without_perm hmap]
    rfl

/-- While a scene is being loaded, ticks call no behaviour and apply no command, and need no fuel.
An instance that outlasts scenes and cannot be skipped is killed once something of it is due. Every
other one is left as it was but for the order in which its branches wait: those that are due at a
tick are put behind those that are not, so of two branches that have been due at different ticks the
one that has been due later on stands behind, and only those that have been due together are sure to
stand as they stood. -/
theorem scene_change_puts_off [Behaviour β] {e : Engine β} (h : e.Handled)
    (hs : e.world.sceneLoading = true) (spans : List Nat) :
    ∃ e', (∀ fuel, e.ticks fuel spans = some e') ∧ e'.Handled ∧
      e.Weathers (e.world.clock.ticks spans) e' := by
  induction spans generalizing e with
  | nil => exact ⟨e, fun _ => rfl, h, e.weathers_nil⟩
  | cons nanoseconds rest ih =>
    let e₁ := (e.advanced nanoseconds).throughScene e.instances []
    have htick : ∀ fuel, e.tick fuel nanoseconds = some e₁ := fun fuel =>
      h.tick_of_sceneLoading hs fuel nanoseconds
    have hperformed : e.perform 0 (.tick nanoseconds) = some e₁ := htick 0
    have hhandled : e₁.Handled := h.perform hperformed
    have hloading : e₁.world.sceneLoading = true := by
      simp only [e₁, throughScene, World.throughScene_eq]
      exact hs
    have hclock : e₁.world.clock = e.world.clock.advance nanoseconds := by
      simp only [e₁, throughScene, World.throughScene_eq]
      rfl
    obtain ⟨e', hticks, hhandled', hweathers⟩ := ih hhandled hloading
    rw [hclock] at hweathers
    refine ⟨e', fun fuel => ?_, hhandled', ?_⟩
    · rw [ticks, htick, Option.bind_some]
      exact hticks fuel
    · exact hweathers.cons

/-- A kind of nodes that take two outputs at once. -/
def splitKind : NodeKind Builtin where
  name := "split"
  validate _ := .ok ()
  prepare _ := .ok (.parallel ⟨2⟩)

/-- A kind of nodes that wait for some seconds. -/
def waitKind (name : String) (seconds : Float32) : NodeKind Builtin where
  name := name
  validate _ := .ok ()
  prepare _ := .ok (.wait ⟨seconds, none⟩)

/-- A graph with two branches, the first of which waits for a shorter time. -/
def fork : Graph where
  id := "fork"
  name := "fork"
  nodes :=
    [{ kind := "split", endings := [.goto 1, .goto 2] }, { kind := "short", endings := [.stop] },
      { kind := "long", endings := [.stop] }]

/-- The nodes for which the instances wait, in order. -/
def awaited (e : Engine β) : List (List Nat) :=
  e.instances.map fun p => p.pending.map (·.index)

/-- The first branch of the fork is due from the first second on, and the second branch from the
second one on. Two seconds into the scene change they have changed places, and the second branch is
resumed before the first one. -/
theorem scene_change_puts_off_fork : ∃ e e' e'' : Engine Builtin,
    e.Handled ∧ e.world.sceneLoading = true ∧
    e.Weathers (e.world.clock.ticks [1000000000, 1000000000]) e' ∧ e.awaited = [[1, 2]] ∧
    e'.awaited = [[2, 1]] ∧ (e'.setScene false).tick 9 0 = some e'' ∧
    (e''.world.runsOf 0).map (·.1) = [0, 1, 2, 2, 1] := by
  have hruns : (((ofKinds {} [splitKind, waitKind "short" 1, waitKind "long" 2]).register
      fork).perform 9 (.trigger "fork" {})).bind (fun e =>
        (e.setScene true).ticks 9 [1000000000, 1000000000] |>.bind fun e' =>
          ((e'.setScene false).tick 9 0).map fun e'' => (e.awaited, e'.awaited,
            (e''.world.runsOf 0).map (·.1))) =
      some ([[1, 2]], [[2, 1]], [0, 1, 2, 2, 1]) := by
    decide +kernel
  simp only [Option.bind_eq_some_iff, Option.map_eq_some_iff, Prod.mk.injEq] at hruns
  obtain ⟨e, he, e', he', e'', he'', hbefore, hafter, hresumed⟩ := hruns
  have hregistered : Reachable (fun _ => True)
      ((ofKinds {} [splitKind, waitKind "short" 1, waitKind "long" 2]).register fork) :=
    (Reachable.start {} _).register fork trivial
  have hset : e.perform 0 (.setScene true) = some (e.setScene true) := rfl
  have hloading : (e.setScene true).Handled :=
    (hregistered.perform trivial he).handled.perform hset
  obtain ⟨e₁, hticks, -, hweathers⟩ :=
    scene_change_puts_off hloading rfl [1000000000, 1000000000]
  obtain rfl : e₁ = e' := Option.some.inj ((hticks 9).symm.trans he')
  exact ⟨e.setScene true, e₁, e'', hloading, rfl, hweathers, hbefore, hafter, he'', hresumed⟩

end Engine

end Cutscene
