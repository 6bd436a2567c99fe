import Cutscene.Proofs.Engine.Editions

/-!
# What an engine has in common with a later one

What becomes of instances in a deed is said once (`Doing.instances`): whatever is done to an engine,
they stay the instances that they were, and no id is given out twice (`Engine.Descends`). The
journal only grows, by what the deeds say of their instances (`Doing.hears`). `Later` are the
engines to which operations of a kind lead.
-/

namespace Cutscene

variable {β : Type}

/-- The same instance, whatever it has done meanwhile and whatever it has been told. -/
structure Playback.SameMake (p q : Playback β) : Prop where
  id : q.id = p.id
  graph : q.graph = p.graph
  settings : q.settings = p.settings
  edition : q.edition = p.edition

/-- The same instance as before, which has not done anything meanwhile: what is going on in it went
on before. -/
structure Playback.Stays (p q : Playback β) : Prop extends p.SameMake q where
  active : q.isActive = true → p.isActive = true
  pending : ∀ b ∈ q.pending, b ∈ p.pending

namespace Playback

variable {p q r : Playback β}

theorem SameMake.refl (p : Playback β) : p.SameMake p := ⟨rfl, rfl, rfl, rfl⟩

theorem SameMake.trans (h : p.SameMake q) (h' : q.SameMake r) : p.SameMake r where
  id := h'.id.trans h.id
  graph := h'.graph.trans h.graph
  settings := h'.settings.trans h.settings
  edition := h'.edition.trans h.edition

theorem SameMake.of_identity (h : q.identity = p.identity) : p.SameMake q where
  id := congrArg Identity.id h
  graph := congrArg Identity.graph h
  settings := congrArg Identity.settings h
  edition := congrArg Identity.edition h

theorem SameMake.told (p : Playback β) (parameters : ParameterSet) (conversation : Option String) :
    p.SameMake { p with parameters, conversation } := ⟨rfl, rfl, rfl, rfl⟩

theorem SameMake.of_perform [Behaviour β] {fuel : Nat} {op : Operation} {w : World β}
    {r : Playback β × World β} (h : p.perform fuel w op = some r) : p.SameMake r.1 :=
  .of_identity (identity_perform h)

theorem Stays.refl (p : Playback β) : p.Stays p := ⟨.refl p, fun h => h, fun _ hb => hb⟩

theorem SameMake.isSkippable (h : p.SameMake q) : q.isSkippable = p.isSkippable :=
  congrArg Settings.isSkippable h.settings

end Playback

namespace Engine

/-- A later engine: its instances are new ones, under new ids, or were there before. -/
structure Descends (e e' : Engine β) : Prop where
  nextId : e.nextId ≤ e'.nextId
  instances : ∀ q ∈ e'.instances, q.id < e.nextId → ∃ p ∈ e.instances, p.SameMake q

variable {e e' e'' : Engine β}

theorem Descends.refl (e : Engine β) : e.Descends e :=
  ⟨Nat.le_refl _, fun q hq _ => ⟨q, hq, .refl q⟩⟩

theorem Descends.trans (h : e.Descends e') (h' : e'.Descends e'') : e.Descends e'' where
  nextId := h.nextId.trans h'.nextId
  instances q hq hlt := by
    obtain ⟨p', hp', hsame'⟩ := h'.instances q hq (Nat.lt_of_lt_of_le hlt h.nextId)
    obtain ⟨p, hp, hsame⟩ := h.instances p' hp' (hsame'.id ▸ hlt)
    exact ⟨p, hp, hsame.trans hsame'⟩

variable [Behaviour β] {d : Deed β}

/-- What an instance has done in a deed. -/
structure Did (e : Engine β) (p : Playback β) (op : Playback.Operation) (q : Playback β)
    (e' : Engine β) : Prop where
  instance? : e.instance? p.id = some p
  isReset : op.isReset = false
  result : ∃ parameters conversation notices fuel,
    ({ p with parameters, conversation } : Playback β).perform fuel (e.world.noticeAll notices) op =
      some (q, e'.world)

theorem Did.sameMake {p q : Playback β} {op : Playback.Operation} (h : e.Did p op q e') :
    p.SameMake q := by
  obtain ⟨parameters, conversation, notices, fuel, hr⟩ := h.result
  exact (Playback.SameMake.told p parameters conversation).trans (.of_perform hr)

/-- An instance that a graph has been given in a deed. -/
structure Made (e : Engine β) (d : Deed β) (q : Playback β) (e' : Engine β) : Prop where
  id : q.id = e.nextId
  phase : q.phase = .idle
  pending : q.pending = []
  registry : e'.world.registry = e.world.registry
  source : ∃ graph edition, d = .spawn graph ∧ e.graphs.get? graph = some edition ∧
    q.graph = edition.graph.id

/-- The instances that there are after a deed. -/
inductive InstancesAfter (e : Engine β) (d : Deed β) (e' : Engine β) : Prop
  | same (h : e'.instances = e.instances)
  /-- An instance has done something. -/
  | acted {p q : Playback β} {op : Playback.Operation} (hd : d = .act p op)
    (hdid : e.Did p op q e') (h : e'.instances = (e.put (q, e'.world)).instances)
  /-- An instance has been changed without doing anything. -/
  | changed {p q : Playback β} (hp : e.instance? p.id = some p) (hstays : p.Stays q)
    (hbehaviours : q.nodes.map (·.behaviour) = p.nodes.map (·.behaviour))
    (h : e'.instances = (e.put (q, e'.world)).instances)
  | made {q : Playback β} (hmade : e.Made d q e') (h : e'.instances = e.instances ++ [q])
  | gone {keep : Playback β → Bool} (hd : d = .retire)
    (h : e'.instances = e.instances.filter keep)

theorem Doing.instances (h : Doing e d e') : e.InstancesAfter d e' := by
  cases h with
  | @act p hp parameters conversation notices fuel op r hop hr =>
    exact .acted rfl ⟨hp, hop, parameters, conversation, notices, fuel, hr⟩ rfl
  | @brief p hp parameters conversation =>
    exact .changed hp ⟨.told p parameters conversation, id, fun _ hb => hb⟩ rfl rfl
  | @forget p hp =>
    exact .changed (q := p.forgetChoices) hp ⟨⟨rfl, rfl, rfl, rfl⟩, id, fun _ hb => hb⟩
      (by simp [Playback.forgetChoices]) rfl
  | @clear p hp =>
    exact .changed (q := p.clearBranches) hp
      ⟨⟨rfl, rfl, rfl, rfl⟩, id, fun b hb => absurd hb List.not_mem_nil⟩
      (by simp [Playback.clearBranches]) rfl
  | @reset p hp unqueue =>
    refine .changed hp ⟨.of_identity p.identity_halt, fun hactive => ?_, fun b hb => ?_⟩ ?_ rfl
    · -- A reset leaves no instance active that was not.
      unfold Playback.isActive at hactive ⊢
      rw [Playback.halt_phase] at hactive
      split_ifs at hactive
      · simp at hactive
      · exact hactive
    · rw [p.halt_pending] at hb
      exact absurd hb List.not_mem_nil
    · unfold Playback.halt
      dsimp only
      split_ifs <;> simp [Playback.clearBranches]
  | @spawn _ graph id hs =>
    rcases spawn_cases hs with ⟨rfl, -⟩ | ⟨edition, nodes, notices, parked, hg, -, -, -, heq⟩
    · exact .same rfl
    · -- Where a new instance is made, notices and a shelf entry that is taken away come with it.
      obtain rfl : e' = _ := congrArg Prod.fst heq
      exact .made ⟨rfl, rfl, rfl, (e.world.quiet_noticeAll notices).registry, graph, edition, rfl,
        hg, rfl⟩ rfl
  | @retire keep gone hretires =>
    exact .gone rfl (foldl_park_instances { e with instances := e.instances.filter keep } gone).1
  | _ => exact .same rfl

/-- After a deed there are the instance that has done it, those that have not done anything, and
those that have been made in the course of it. -/
theorem Doing.mem_instances (h : Doing e d e') {q : Playback β} (hq : q ∈ e'.instances) :
    (∃ p op, d = .act p op ∧ e.Did p op q e') ∨
    (∃ p ∈ e.instances, p.Stays q) ∨ e.Made d q e' := by
  have hstill : q ∈ e.instances → ∃ p ∈ e.instances, p.Stays q := fun hq => ⟨q, hq, .refl q⟩
  cases h.instances with
  | same heq => exact Or.inr (Or.inl (hstill (heq ▸ hq)))
  | acted hd hdid heq =>
    rcases mem_instances_put (heq ▸ hq) with rfl | ⟨hq, -⟩
    · -- It has been acted on, or it stood beside the one that was.
      exact Or.inl ⟨_, _, hd, hdid⟩
    · exact Or.inr (Or.inl (hstill hq))
  | @changed p _ hp hstays _ heq =>
    rcases mem_instances_put (heq ▸ hq) with rfl | ⟨hq, -⟩
    · exact Or.inr (Or.inl ⟨p, mem_instances_of_instance? hp, hstays⟩)
    · exact Or.inr (Or.inl (hstill hq))
  | made hmade heq =>
    rcases List.mem_append.mp (heq ▸ hq) with hq | hq
    · exact Or.inr (Or.inl (hstill hq))
    · rw [List.mem_singleton.mp hq]
      exact Or.inr (Or.inr hmade)
  | gone _ heq => exact Or.inr (Or.inl (hstill (List.mem_of_mem_filter (heq ▸ hq))))

/-- After a deed there are instances that were there before, and those made in the course of it. -/
theorem Doing.old_or_made (h : Doing e d e') {q : Playback β} (hq : q ∈ e'.instances) :
    (∃ p ∈ e.instances, p.SameMake q) ∨ e.Made d q e' := by
  rcases h.mem_instances hq with ⟨p, op, -, hdid⟩ | ⟨p, hp, hstays⟩ | hmade
  · exact Or.inl ⟨p, mem_instances_of_instance? hdid.instance?, hdid.sameMake⟩
  · exact Or.inl ⟨p, hp, hstays.toSameMake⟩
  · exact Or.inr hmade

theorem Doing.nextId_le (h : Doing e d e') : e.nextId ≤ e'.nextId := by
  cases h with
  | @spawn _ graph id hs =>
    rcases spawn_cases hs with ⟨rfl, -⟩ | ⟨edition, nodes, notices, parked, -, -, -, -, heq⟩
    · exact Nat.le_refl _
    · obtain rfl : e' = _ := congrArg Prod.fst heq
      exact Nat.le_succ _
  | @retire keep gone hretires =>
    unfold retired
    rw [foldl_park_eq]
  | _ => exact Nat.le_refl _

theorem Doing.descends (h : Doing e d e') : e.Descends e' where
  nextId := h.nextId_le
  instances q hq hlt := by
    rcases h.old_or_made hq with hold | hmade
    · exact hold
    · exact absurd hmade.id (Nat.ne_of_lt hlt)

/-- The event is one of the instance that has done the deed, and takes up no run that the deed may
not take up. -/
def Says (e : Engine β) (d : Deed β) (event : Event) : Prop :=
  ∃ p op, d = .act p op ∧ e.instance? p.id = some p ∧ event.playback = p.id ∧
    event.graph = p.graph ∧ (event.kind.isOpening = true → op.Opens p event.kind)

/-- Nothing that is added to the journal is an event. -/
def Unheard (e e' : Engine β) : Prop :=
  ∃ entries, e'.world.journal = entries ++ e.world.journal ∧ ∀ event, Entry.event event ∉ entries

omit [Behaviour β] in
theorem Unheard.of_journal_eq (h : e'.world.journal = e.world.journal) : e.Unheard e' :=
  ⟨[], h, by simp⟩

omit [Behaviour β] in
theorem unheard_of_noticeAll {notices : List Notice}
    (h : e'.world.journal = (e.world.noticeAll notices).journal) : e.Unheard e' := by
  rw [World.noticeAll_eq] at h
  exact ⟨_, h, by simp⟩

/-- A deed is not heard of unless an instance does something. -/
theorem Doing.unheard (h : Doing e d e') (hact : ∀ p op, d ≠ .act p op) : e.Unheard e' := by
  cases h with
  | @act p _ _ _ _ _ op => exact absurd rfl (hact p op)
  | note notices => exact unheard_of_noticeAll rfl
  | pass hw =>
    obtain ⟨notices, hj⟩ := hw.journal
    exact ⟨_, hj, by simp⟩
  | @spawn _ graph id hspawn =>
    rcases spawn_cases hspawn with ⟨rfl, -⟩ | ⟨edition, nodes, notices, parked, -, -, -, -, heq⟩
    · exact .of_journal_eq rfl
    · obtain rfl : e' = _ := congrArg Prod.fst heq
      exact unheard_of_noticeAll rfl
  -- What is retired goes on the shelf, and nobody hears of that.
  | @retire keep gone hretires =>
    refine .of_journal_eq ?_
    unfold retired
    rw [(foldl_park_instances _ gone).2]
  | _ => exact .of_journal_eq rfl

/-- What is added to the journal in a deed is heard of the instance that does it. -/
theorem Doing.hears (h : Doing e d e') (hs : ∀ p ∈ e.instances, p.skipping = false) :
    ∃ entries, e'.world.journal = entries ++ e.world.journal ∧
      ∀ event, .event event ∈ entries → e.Says d event := by
  by_cases hact : ∀ p op, d ≠ .act p op
  · obtain ⟨entries, hj, hnot⟩ := h.unheard hact
    exact ⟨entries, hj, fun event hevent => absurd hevent (hnot event)⟩
  · push Not at hact
    obtain ⟨p, op, rfl⟩ := hact
    cases h with
    -- What the instance is told before it acts is in the notices only.
    | @act _ hp parameters conversation notices fuel _ r hop hr =>
      obtain ⟨first, hfirst, hnot⟩ : e.Unheard (e.noticeAll notices) := unheard_of_noticeAll rfl
      let told : Playback β := { p with parameters, conversation }
      have hskipping : told.skipping = false := hs p (mem_instances_of_instance? hp)
      obtain ⟨entries, hj, hentries⟩ := Playback.hears_perform hskipping hr
      refine ⟨entries ++ first, ?_, fun event hevent => ?_⟩
      · rw [List.append_assoc, ← hfirst]
        exact hj
      · rcases List.mem_append.mp hevent with hevent | hevent
        · exact ⟨p, op, rfl, hp, hentries event hevent⟩
        · exact absurd hevent (hnot event)

/-- The others are not heard of. -/
theorem Doing.eventsOf_eq (h : Doing e d e') (hs : ∀ p ∈ e.instances, p.skipping = false) {id : Nat}
    (hid : ∀ p op, d = .act p op → p.id ≠ id) : e'.world.eventsOf id = e.world.eventsOf id := by
  obtain ⟨entries, hj, hsays⟩ := h.hears hs
  have hnone : (entries.filterMap (Entry.kindFor? id)).reverse = [] := by
    refine List.eq_nil_iff_forall_not_mem.mpr fun kind hkind => ?_
    obtain ⟨event, hevent, rfl, -⟩ := World.mem_kindsFor.mp hkind
    obtain ⟨p, op, hact, -, hpid, -⟩ := hsays event hevent
    exact hid p op hact hpid.symm
  rw [World.eventsOf_of_journal_eq hj, hnone, List.append_nil]

/-! ### Any number of deeds -/

variable {allowed : Engine β → Deed β → Prop}

theorem Does.descends (h : Does allowed e e') : e.Descends e' := by
  induction h with
  | refl => exact .refl e
  | tail _ hd ih =>
    obtain ⟨d, -, hdoing⟩ := hd
    exact ih.trans hdoing.descends

theorem Linked.does (h : e.Linked) (hd : Does allowed e e') : e'.Linked := h.touches hd.touches

theorem Filed.touches (h : e.Filed) (ht : Touches e e') : e'.Filed := by
  induction ht with
  | refl => exact h
  | tail _ ht ih => exact ih.touch ht

theorem Filed.does (h : e.Filed) (hd : Does allowed e e') : e'.Filed := h.touches hd.touches

/-- What every deed of a kind keeps in an engine whose tables fit together. -/
theorem Does.invariant_of_filed {I : Engine β → Prop} (hd : Does allowed e e') (hl : e.Linked)
    (hf : e.Filed) (h : I e)
    (hdeed : ∀ (a b : Engine β) (d : Deed β), a.Linked → a.Filed → I a → allowed a d →
      Doing a d b → I b) : I e' := by
  have hall : e'.Linked ∧ e'.Filed ∧ I e' :=
    hd.invariant (I := fun e => e.Linked ∧ e.Filed ∧ I e) ⟨hl, hf, h⟩
      fun a b d ha hallowed hdoing => ⟨ha.1.touches hdoing.touches,
        ha.2.1.touches hdoing.touches, hdeed a b d ha.1 ha.2.1 ha.2.2 hallowed hdoing⟩
  exact hall.2.2

theorem Does.journal (hd : Does allowed e e') (hl : e.Linked) :
    ∃ entries, e'.world.journal = entries ++ e.world.journal := by
  induction hd with
  | refl => exact ⟨[], rfl⟩
  | tail hfirst hone ih =>
    obtain ⟨d, -, hdoing⟩ := hone
    obtain ⟨entries, hj⟩ := ih
    obtain ⟨more, hmore, -⟩ := hdoing.hears (hl.does hfirst).notSkipping
    exact ⟨more ++ entries, by rw [hmore, hj, List.append_assoc]⟩

/-- Whatever a host does is a number of deeds. -/
theorem Handled.does (h : e.Handled) :
    ∃ config kinds, Does (fun _ _ => True) (ofKinds config kinds) e := by
  induction h with
  | start config kinds => exact ⟨config, kinds, .refl⟩
  | perform h hr ih =>
    obtain ⟨config, kinds, hd⟩ := ih
    exact ⟨config, kinds, hd.trans ((h.linked.does_perform hr).mono fun _ _ _ => trivial)⟩
  | @clear a h id ih =>
    obtain ⟨config, kinds, hd⟩ := ih
    exact ⟨config, kinds, hd.trans (does_modifyInstance (d := .clear) trivial id
      fun p hp => .clear hp)⟩

/-- What new engines have and every deed keeps in an engine whose tables fit together. -/
theorem Handled.invariant_of_deeds {I : Engine β → Prop} (h : e.Handled)
    (hstart : ∀ config kinds, I (ofKinds config kinds))
    (hdeed : ∀ (a b : Engine β) (d : Deed β), a.Linked → a.Filed → I a → Doing a d b → I b) :
    I e := by
  obtain ⟨config, kinds, hd⟩ := h.does
  exact hd.invariant_of_filed (linked_ofKinds config kinds) (filed_ofKinds config kinds)
    (hstart config kinds) fun a b d hl hf ha _ hdoing => hdeed a b d hl hf ha hdoing

/-! ### Operation by operation -/

/-- The engines to which operations of a kind lead, one after the other. -/
abbrev Later (kind : Operation β → Prop) (e e' : Engine β) : Prop :=
  Relation.ReflTransGen (fun a b => ∃ fuel op, kind op ∧ a.perform fuel op = some b) e e'

variable {kind : Operation β → Prop}

theorem Linked.does_later (h : e.Linked) (hl : Later kind e e') :
    Does (fun _ d => ∃ op, kind op ∧ op.Admits d) e e' := by
  induction hl with
  | refl => exact .refl
  | tail _ hop ih =>
    obtain ⟨fuel, op, hkind, hr⟩ := hop
    have hnext := (h.does ih).does_perform hr
    exact ih.trans (hnext.mono fun _ d hd => ⟨op, hkind, hd⟩)

end Engine

end Cutscene
