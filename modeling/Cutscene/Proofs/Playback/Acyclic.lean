import Cutscene.Proofs.Playback.Striding

/-!
# Skips where nodes lead in no circle

Where no node can come after itself a skip comes to every node once at most, and past the nodes at
the end. That is one hop for each node and one more, for the branch that finds no node any more is
counted like the others. So the limit on hops does not only stop loops: with a factor below two it
kills a skip that comes to every node, right before its end (`skip_of_acyclic`).
-/

namespace Cutscene

variable {β : Type}

namespace Turn

variable [Behaviour β] {S : Nat → β → Prop} {p : Playback β} {t : Turn β} {index : Nat}

/-! ### Calls at a place -/

/-- Calls at a place that a skip comes to: its node is skipped once at most, and none is run. -/
structure AreAtPlace (index : Nat) (calls : List (Call β)) : Prop where
  skips : ((calls.filter (·.form = .skip)).map (·.index)).Sublist [index]
  forms : ∀ c ∈ calls, c.form = .skip ∨ c.form = .choose

omit [Behaviour β] in
theorem areAtPlace_nil (index : Nat) : AreAtPlace index ([] : List (Call β)) :=
  ⟨List.nil_sublist _, fun _ hc => absurd hc List.not_mem_nil⟩

theorem areAtPlace_asked (t u : Turn β) (index : Nat) (b : β) :
    AreAtPlace index (t.call .skip index b :: u.asked index) := by
  have hforms := (areOfHop_asked t u index b).forms
  have hasked : (u.asked index).filter (·.form = .skip) = [] := by
    rw [List.filter_eq_nil_iff]
    intro c hc
    rw [u.form_of_mem_asked hc]
    simp
  refine ⟨?_, hforms⟩
  rw [List.filter_cons_of_pos (by simp [call]), hasked]
  exact List.Sublist.refl _

theorem areAtPlace_visit (hs : t.playback.skipping = true) (index : Nat) :
    ∃ calls, (t.visit index).world.calls = t.world.calls ++ calls ∧ AreAtPlace index calls := by
  rcases calls_visit_of_skipping hs index with hcalls | ⟨node, b, -, -, -, hcalls⟩
  · exact ⟨[], hcalls.trans (List.append_nil _).symm, areAtPlace_nil index⟩
  · exact ⟨_, hcalls, areAtPlace_asked t.hop.1 _ index (t.hop.1.assigned b)⟩

/-! ### The whole way -/

/-- A skip under way comes to some places in turn, each of which may come after the one before, and
then is over: by itself, unless it has come to more places than it may take hops. -/
structure StridesTo (S : Nat → β → Prop) (p : Playback β) (t : Turn β) (path : List Nat)
    (r : Playback β × World β) : Prop where
  run : t.run path.length = some r
  visits : t.visits path.length = path
  chain : path.IsChain (p.MayLead S)
  finished : r.1.phase = .finished ∧ r.1.pending = []
  events : ∃ kinds, r.2.eventsOf t.playback.id = t.world.eventsOf t.playback.id ++ kinds ∧
    kinds.filter (·.isEnd) = [.ended (decide (t.hopCap < t.playback.hops + path.length))]
  room : t.playback.hops + path.length ≤ t.hopCap + 1
  calls : ∃ calls, r.2.calls = t.world.calls ++ calls ∧
    ((calls.filter (·.form = .skip)).map (·.index)).Sublist path ∧
    ∀ c ∈ calls, c.form = .skip ∨ c.form = .choose

/-- The place that a skip comes to first, and the places after it. -/
theorem StridesTo.cons {u : Turn β} {path : List Nat} {r : Playback β × World β} {b : Branch}
    (h : StridesTo S p u path r) (hrun : t.playback.phase = .running) (hready : t.ready = [b])
    (hb : b.index = index) (hadvance : ({ t with ready := [] } : Turn β).advance b = u)
    (hforward : t.Forward 1 u) (hcalls : ∃ calls, u.world.calls = t.world.calls ++ calls ∧
      AreAtPlace index calls) (hleads : ∀ j ∈ path.head?, p.MayLead S index j) :
    StridesTo S p t (index :: path) r := by
  have hcap : u.hopCap = t.hopCap := congrArg (· % UInt64.size) hforward.hopLimit_eq
  have hid : u.playback.id = t.playback.id :=
    congrArg Playback.Identity.id hforward.calm.identity
  have hhops := hforward.hops_eq
  refine ⟨?_, ?_, ?_, h.finished, ?_, ?_, ?_⟩
  · rw [List.length_cons, run_of_ready_eq_cons hrun hready, hadvance]
    exact h.run
  · rw [List.length_cons, Turn.visits, hready]
    dsimp only
    rw [if_pos hrun, hadvance, h.visits, hb]
  · exact List.isChain_cons.mpr ⟨hleads, h.chain⟩
  · obtain ⟨kinds, hkinds, hends⟩ := h.events
    refine ⟨kinds, ?_, ?_⟩
    · rw [← hid, hkinds, hforward.calm.world.events]
    · -- The hop to this node counts in with those of the rest of the way.
      rw [hends, hcap, hhops, List.length_cons, Nat.add_assoc, Nat.add_comm 1]
  · have hroom := h.room
    rw [hcap, hhops] at hroom
    rw [List.length_cons]
    omega
  · obtain ⟨first, hfirst, hplace⟩ := hcalls
    obtain ⟨more, hmore, hskips, hforms⟩ := h.calls
    refine ⟨first ++ more, ?_, ?_, fun c hc => ?_⟩
    · rw [hmore, hfirst, List.append_assoc]
    · rw [List.filter_append, List.map_append]
      exact hplace.skips.append hskips
    · exact (List.mem_append.mp hc).elim (hplace.forms c) (hforms c)

/-- The place at which a skip is over. -/
theorem StridesTo.last {u : Turn β} {b : Branch} (hrun : t.playback.phase = .running)
    (hready : t.ready = [b]) (hb : b.index = index)
    (hadvance : ({ t with ready := [] } : Turn β).advance b = u)
    (hover : u.playback.phase = .finished ∧ u.playback.pending = [])
    (hevents : ∃ kinds, u.world.eventsOf t.playback.id = t.world.eventsOf t.playback.id ++ kinds ∧
      kinds.filter (·.isEnd) = [.ended (decide (t.hopCap < t.playback.hops + 1))])
    (hcalls : ∃ calls, u.world.calls = t.world.calls ++ calls ∧ AreAtPlace index calls)
    (hroom : t.playback.hops ≤ t.hopCap) : StridesTo S p t [index] u.view where
  run := by
    rw [List.length_singleton, run_of_ready_eq_cons hrun hready, hadvance]
    exact run_of_not_running (by simp [hover.1]) 0
  visits := by
    rw [List.length_singleton, Turn.visits, hready]
    dsimp only
    rw [if_pos hrun, hadvance, visits_of_not_running (by simp [hover.1]), hb]
  chain := List.isChain_singleton index
  finished := hover
  events := hevents
  room := by
    rw [List.length_singleton]
    omega
  calls := by
    obtain ⟨calls, hcalls, hplace⟩ := hcalls
    exact ⟨calls, hcalls, hplace.skips, hplace.forms⟩

/-- A skip under way comes to its end where every way does. -/
theorem exists_stridesTo (hS : Heritable S) (hunforked : ∀ i b, S i b → Behaviour.fansOut b = false)
    (hacc : Acc (fun j i => p.MayLead S i j) index) (h : Striding S p t index)
    (hroom : t.playback.hops ≤ t.hopCap) :
    ∃ path r, StridesTo S p t (index :: path) r := by
  induction hacc generalizing t with
  | intro index _ ih =>
    obtain ⟨b, hready, hstep, hindex⟩ := h.ready
    let u : Turn β := { t with ready := [] }
    have hadvance : u.advance b = u.visit index := by rw [advance, hstep, hindex]
    have hcalls := areAtPlace_visit (t := u) h.skipping index
    have hnext : StridesOn S p t index (u.visit index) := h.next hS hunforked
    generalize u.visit index = x at hadvance hcalls hnext
    cases hnext with
    | killed hhops hfinished hevents =>
      -- The limit ends the skip at this node.
      refine ⟨[], _, .last h.running hready hindex hadvance hfinished ⟨_, hevents, ?_⟩ hcalls hroom⟩
      rw [decide_eq_true (by omega)]
      rfl
    | @ended v hhops hforward hu =>
      -- The run ends at this node, within the limit.
      subst hu
      have hid : v.playback.id = t.playback.id :=
        congrArg Playback.Identity.id hforward.calm.identity
      refine ⟨[], _, .last h.running hready hindex hadvance ⟨rfl, rfl⟩
        ⟨closing v.playback.conversation, ?_, ?_⟩ hcalls hroom⟩
      · rw [eventsOf_endRun, if_pos hid, hforward.calm.world.events]
      · rw [Playback.filter_isEnd_closing, decide_eq_false (by omega)]
    | @onward target hhops hforward hmay hon =>
      -- It goes on, and there has been a hop left for this node.
      have hroom' : x.playback.hops ≤ x.hopCap := by
        have hcount := hforward.hops_eq
        have hsame : x.hopCap = t.hopCap := congrArg (· % UInt64.size) hforward.hopLimit_eq
        omega
      obtain ⟨path, r, hto⟩ := ih target hmay hon hroom'
      exact ⟨target :: path, r, hto.cons h.running hready hindex hadvance hforward hcalls
        fun j hj => Option.some.inj hj ▸ hmay⟩

end Turn

/-! ### Skips of playbacks -/

/-- Where no place comes after itself, a way comes to every place once. -/
theorem nodup_of_acyclic {leads : Nat → Nat → Prop} (h : ∀ i, ¬ Relation.TransGen leads i i)
    {path : List Nat} (hpath : path.IsChain leads) : path.Nodup := by
  have hpairs : path.Pairwise (Relation.TransGen leads) :=
    List.isChain_iff_pairwise.mp (hpath.imp fun _ _ hij => .single hij)
  refine hpairs.imp ?_
  rintro i j hij rfl
  exact h i hij

/-- And where only so many places lead on, it comes to one more at most. -/
theorem length_le_of_acyclic {leads : Nat → Nat → Prop} {n : Nat} (hn : ∀ i j, leads i j → i < n)
    {path : List Nat} (hpath : path.IsChain leads) (hnodup : path.Nodup) :
    path.length ≤ n + 1 := by
  -- All places but the last lead on, so they are places of nodes.
  have hbefore : ∀ i ∈ path.dropLast, i < n := by
    induction hpath with
    | nil => simp
    | singleton => simp
    | @cons_cons i j rest hij _ ih =>
      rw [List.dropLast_cons_of_ne_nil (by simp)]
      intro k hk
      rcases List.mem_cons.mp hk with rfl | hk
      · exact hn _ _ hij
      · exact ih (List.nodup_cons.mp hnodup).2 k hk
  have hsub : path.dropLast ⊆ List.range n := fun i hi => List.mem_range.mpr (hbefore i hi)
  have hle := ((hnodup.sublist (List.dropLast_sublist path)).subperm hsub).length_le
  rw [List.length_dropLast, List.length_range] at hle
  omega

namespace Playback

variable [Behaviour β] {S : Nat → β → Prop} {p : Playback β} {w : World β} {start : Nat}

/-- A skip from a node goes on a way through nodes that may come after each other. -/
theorem exists_stridesTo_skipTurn (hS : Heritable S)
    (hunforked : ∀ i b, S i b → Behaviour.fansOut b = false) (hin : p.Inherits S)
    (hacyclic : ∀ i, ¬ Relation.TransGen (p.MayLead S) i i) (hstart : start < p.nodes.length) :
    ∃ path r, Turn.StridesTo S p (p.skipTurn w start) (start :: path) r := by
  have hbegins : p.beginning w (.skip start) = p.skipTurn w start :=
    if_neg (Nat.not_le.mpr hstart)
  have hacc := acc_of_acyclic (fun _ _ => MayLead.lt_length) hacyclic start
  refine Turn.exists_stridesTo hS hunforked hacc ?_ (Nat.zero_le _)
  exact
    { running := rfl
      skipping := rfl
      notPausing := rfl
      pending := p.skippingFrom_pending start
      ready := ⟨_, rfl, rfl, rfl⟩
      samePlan := hbegins ▸ p.samePlan_beginning w (.skip start)
      inherits := hbegins ▸ hin.beginning w (.skip start) }

/-- Where no node can come after itself a skip from a node comes to its end on a way that comes to
no node twice: each place may come after the one before, and the place after the last node is the
only one without a node. The skip is killed if the way is longer than the limit on hops allows. With
a factor of two and more that only happens if the limit is beyond the numbers that the program
reckons with; with a factor below two it happens whenever the way comes to every node and to the
place after the last one. -/
theorem skip_of_acyclic (p : Playback β) (w : World β) (hS : Heritable S)
    (hunforked : ∀ i b, S i b → Behaviour.fansOut b = false) (hin : p.Inherits S)
    (hacyclic : ∀ i, ¬ Relation.TransGen (p.MayLead S) i i) (hstart : start < p.nodes.length) :
    ∃ (path : List Nat) (r : Playback β × World β) (killed : Bool),
      (∀ fuel, p.nodes.length < fuel → p.skip fuel w start = some r) ∧
      (p.skipTurn w start).visits path.length = path ∧ path.head? = some start ∧
      path.IsChain (p.MayLead S) ∧ path.Nodup ∧ path.length ≤ p.nodes.length + 1 ∧
      (((w.since r.2 p.id).calls.filter (·.form = .skip)).map (·.index)).Sublist path ∧
      (∀ c ∈ (w.since r.2 p.id).calls, c.form = .skip ∨ c.form = .choose) ∧
      r.1.phase = .finished ∧ r.1.pending = [] ∧
      (w.news r.2 p.id).filter (·.isEnd) = [.ended killed] ∧
      (killed = true ↔
        p.nodes.length * max w.config.hopFactor 1 % UInt64.size < path.length) ∧
      (2 ≤ w.config.hopFactor → p.nodes.length * w.config.hopFactor < UInt64.size →
        killed = false) ∧
      (w.config.hopFactor < 2 → p.nodes.length < UInt64.size →
        (killed = true ↔ path.length = p.nodes.length + 1)) := by
  obtain ⟨path, r, h⟩ := exists_stridesTo_skipTurn (w := w) hS hunforked hin hacyclic hstart
  have hnodup := nodup_of_acyclic hacyclic h.chain
  have hlength := length_le_of_acyclic (fun _ _ => MayLead.lt_length) h.chain hnodup
  have hcap := p.hopCap_skipTurn w start
  have hid : (p.skipTurn w start).playback.id = p.id := p.skippingFrom_id start
  have hhops : (p.skipTurn w start).playback.hops = 0 := rfl
  obtain ⟨calls, hcalls, hskips, hforms⟩ := h.calls
  have hsince : (w.since r.2 p.id).calls = calls := by
    rw [World.since, hcalls, p.calls_skipTurn, List.drop_left]
  -- A skip begins with two events that are not ends.
  have hends : (w.news r.2 p.id).filter (·.isEnd) = [.ended (decide
      (p.nodes.length * max w.config.hopFactor 1 % UInt64.size < (start :: path).length))] := by
    obtain ⟨kinds, hkinds, hends⟩ := h.events
    rw [hid, p.eventsOf_skipTurn, List.append_assoc] at hkinds
    rw [World.news_of_eventsOf_eq_append hkinds, List.filter_append, hends, hcap, hhops,
      Nat.zero_add]
    split_ifs <;> rfl
  have hroom := h.room
  rw [hcap, hhops, Nat.zero_add] at hroom
  refine ⟨start :: path, r, _, fun fuel hfuel => ?_, h.visits, rfl, h.chain, hnodup, hlength,
    hsince ▸ hskips, hsince ▸ hforms, h.finished.1, h.finished.2, hends, decide_eq_true_iff, ?_, ?_⟩
  · rw [skip_eq, if_neg (Nat.not_le.mpr hstart)]
    exact Turn.run_mono h.run (by omega)
  · -- Twice as many hops as nodes are enough for every node and the place behind them.
    intro hfactor hproduct
    have hmax : max w.config.hopFactor 1 = w.config.hopFactor := by omega
    have htwice := Nat.mul_le_mul_left p.nodes.length hfactor
    rw [hmax, Nat.mod_eq_of_lt hproduct, decide_eq_false_iff_not]
    omega
  · -- As many hops as nodes do not suffice for the place behind the last node.
    intro hfactor hproduct
    have hmax : max w.config.hopFactor 1 = 1 := by omega
    rw [hmax, Nat.mul_one, Nat.mod_eq_of_lt hproduct, decide_eq_true_iff]
    omega

/-- Comments remain comments. -/
theorem heritable_comment : Heritable fun _ (b : Builtin) => ∃ c, b = .comment c where
  assign := by
    rintro _ _ ⟨c, rfl⟩ _
    exact ⟨c, rfl⟩
  run := by
    rintro _ _ ⟨c, rfl⟩ _ _
    exact ⟨c, rfl⟩
  skip := by
    rintro _ _ ⟨c, rfl⟩ _ _
    exact ⟨c, rfl⟩
  choose := by
    rintro _ _ ⟨c, rfl⟩ _ _
    exact ⟨c, rfl⟩

/-- Two comments in a row. -/
def strolling : Playback Builtin where
  id := 0
  graph := "stroll"
  nodes :=
    [{ id := "", kind := "comment", title := "", enabled := true, endings := [.next],
       behaviour := some (.comment ⟨"here"⟩) },
     { id := "", kind := "comment", title := "", enabled := true, endings := [.next],
       behaviour := some (.comment ⟨"there"⟩) }]
  parameters := ⟨[]⟩
  settings := {}

/-- Two comments in a row lead on and on. -/
theorem acyclic_strolling (i : Nat) :
    ¬ Relation.TransGen (strolling.MayLead fun _ b => ∃ c, b = .comment c) i i := by
  have hlater : ∀ i j, strolling.MayLead (fun _ b => ∃ c, b = .comment c) i j → i < j := by
    intro i j hij
    have hplan : strolling.plan = [([.next], true), ([.next], true)] := rfl
    cases hij with
    | passed _ => exact Nat.lt_succ_self i
    | left hn _ _ he ht =>
      have hmem := List.mem_of_getElem? hn
      rw [hplan] at hmem
      simp only [List.mem_cons, Prod.mk.injEq, List.not_mem_nil, or_false, or_self] at hmem
      rw [hmem.1, List.mem_singleton] at he
      subst he
      exact (Option.some.inj ht) ▸ Nat.lt_succ_self i
  -- A circle would lead from a node to a later one, and so to itself.
  intro hi
  have hlt : Relation.TransGen (· < ·) i i := Relation.TransGen.mono hlater _ _ hi
  rw [Relation.transGen_eq_self] at hlt
  exact absurd hlt (Nat.lt_irrefl i)

/-- With a hop for every node, a skip over two comments in a row is killed behind the second one. -/
theorem skip_of_acyclic_strolling : ∃ (path : List Nat) (r : Playback Builtin × World Builtin),
    (∀ fuel, 2 < fuel → strolling.skip fuel { config := { hopFactor := 1 } } 0 = some r) ∧
      path.head? = some 0 ∧ path.Nodup ∧ path.length = 3 ∧
      (World.news { config := { hopFactor := 1 } } r.2 0).filter (·.isEnd) = [.ended true] := by
  have hunforked : ∀ (i : Nat) (b : Builtin), (∃ c, b = .comment c) →
      Behaviour.fansOut b = false := by
    rintro _ _ ⟨c, rfl⟩
    rfl
  have hstart : 0 < strolling.nodes.length := Nat.zero_lt_two
  obtain ⟨path, r, killed, hskip, -, hhead, -, hnodup, -, -, -, -, -, hends, -, -, hkilled⟩ :=
    skip_of_acyclic strolling { config := { hopFactor := 1 } } heritable_comment hunforked
      (.of_nodes (by simp [strolling])) acyclic_strolling hstart
  have hevents : ∃ r', strolling.skip 3 { config := { hopFactor := 1 } } 0 = some r' ∧
      (World.news ({ config := { hopFactor := 1 } } : World Builtin) r'.2 0).filter (·.isEnd) =
        [.ended true] := by
    refine ⟨_, rfl, ?_⟩
    decide
  obtain ⟨r', hr', hends'⟩ := hevents
  obtain rfl := Option.some.inj (hr'.symm.trans (hskip 3 (by decide)))
  have htrue : killed = true := by
    rw [show strolling.id = 0 from rfl, hends'] at hends
    simpa using hends.symm
  exact ⟨path, r', hskip, hhead, hnodup, (hkilled (by decide) (by decide)).mp htrue, hends'⟩

end Playback

end Cutscene
