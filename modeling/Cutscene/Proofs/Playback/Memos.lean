import Cutscene.Proofs.Playback.Calls
import Cutscene.Proofs.Playback.Hearing
import Mathlib.Data.List.TakeWhile

/-!
# What a playback remembers

A node remembers the output that it took last, so that a skip can take it again. `Call.Leaves` says
which call of the journal an output goes back to, and a playback is `Mindful` if everything it
remembers goes back to calls since it began last (`World.sinceBegan`). Changes of a turn keep that
(`Turn.Change.mindful`), and so does every operation (`Mindful.perform`): whoever lets a run begin
forgets what was before. A playback that has never begun may remember what others have chosen, for
nodes are handed on from one playback to the next.
-/

namespace Cutscene

variable {β : Type}

/-! ### The present pass -/

/-- The entry says that a run of a playback begins. -/
def Entry.begins (id : Nat) (entry : Entry β) : Bool :=
  match entry.kindFor? id with
  | some (.began _) => true
  | _ => false

namespace World

/-- What has happened since a playback began last, latest first; everything, if it never did. -/
def sinceBegan (w : World β) (id : Nat) : List (Entry β) :=
  w.journal.takeWhile fun entry => !entry.begins id

/-- A run of a playback has begun some time. -/
def HasBegun (w : World β) (id : Nat) : Prop := ∃ entry ∈ w.journal, entry.begins id = true

/-- A later world in which a playback has not begun once more. -/
def Lasts (w : World β) (id : Nat) (w' : World β) : Prop :=
  ∃ entries, w'.journal = entries ++ w.journal ∧ ∀ entry ∈ entries, entry.begins id = false

variable {w w' w'' : World β} {id : Nat}

theorem Lasts.of_journal_eq (h : w'.journal = w.journal) : w.Lasts id w' := ⟨[], h, by simp⟩

theorem Lasts.refl (w : World β) (id : Nat) : w.Lasts id w := .of_journal_eq rfl

/-- Nothing that has happened since the beginning is forgotten. -/
theorem Lasts.mem_sinceBegan (h : w.Lasts id w') {entry : Entry β}
    (hentry : entry ∈ w.sinceBegan id) : entry ∈ w'.sinceBegan id := by
  obtain ⟨entries, hj, hentries⟩ := h
  rw [sinceBegan, hj, List.takeWhile_append_of_pos fun e he => by simp [hentries e he]]
  exact List.mem_append_right _ hentry

theorem Lasts.hasBegun (h : w.Lasts id w') (hb : w'.HasBegun id) : w.HasBegun id := by
  obtain ⟨entries, hj, hentries⟩ := h
  obtain ⟨entry, hmem, hbegins⟩ := hb
  rw [hj] at hmem
  rcases List.mem_append.mp hmem with hnew | hold
  · simp [hentries entry hnew] at hbegins
  · exact ⟨entry, hold, hbegins⟩

theorem mem_journal_of_mem_sinceBegan {entry : Entry β} (h : entry ∈ w.sinceBegan id) :
    entry ∈ w.journal :=
  (List.takeWhile_sublist _).subset h

/-- For a playback that has never begun everything counts. -/
theorem sinceBegan_of_not_hasBegun (h : ¬w.HasBegun id) : w.sinceBegan id = w.journal := by
  refine List.takeWhile_eq_self_iff.mpr fun entry hentry => ?_
  rw [Bool.not_eq_true']
  by_contra hbegins
  exact h ⟨entry, hentry, by simpa using hbegins⟩

/-- Only its beginning ends the pass of a playback. -/
theorem Hears.lasts {graph : String} {kinds : Event.Kind → Prop} (h : w.Hears id graph kinds w')
    {j : Nat} (hk : id = j → ∀ start, ¬kinds (.began start)) : w.Lasts j w' := by
  obtain ⟨entries, hj, hentries⟩ := h
  refine ⟨entries, hj, fun entry hentry => ?_⟩
  cases entry with
  | event event =>
    obtain ⟨hid, -, hkind⟩ := hentries event hentry
    unfold Entry.begins Entry.kindFor?
    dsimp only
    split_ifs with hown
    · cases hbegan : event.kind with
      | began start => exact absurd (hbegan ▸ hkind) (hk (hid.symm.trans hown) start)
      | _ => rfl
    · rfl
  | call => rfl
  | notice => rfl

theorem GoesOn.lasts {graph : String} (h : w.GoesOn id graph w') (j : Nat) : w.Lasts j w' :=
  Hears.lasts h fun _ _ hbegan => by simp [Event.Kind.isOpening] at hbegan

theorem lasts_noticeAll (w : World β) (notices : List Notice) (id : Nat) :
    w.Lasts id (w.noticeAll notices) := by
  have hheard : w.GoesOn id "" (w.noticeAll notices) := w.hears_noticeAll notices
  exact hheard.lasts id

theorem lasts_absorbChoice (w : World β) (c : Choice β) (id : Nat) :
    w.Lasts id (w.absorbChoice c) :=
  lasts_noticeAll { w with vars := c.vars } c.notices id

theorem lasts_kill (p : Playback β) (w : World β) (id : Nat) : w.Lasts id (p.kill w).2 :=
  (goesOn_kill p w).lasts id

theorem lasts_endRun (t : Turn β) (id : Nat) : t.world.Lasts id t.endRun.world :=
  (goesOn_endRun t).lasts id

theorem lasts_endPause (t : Turn β) (id : Nat) : t.world.Lasts id t.endPause.world :=
  (goesOn_endPause t).lasts id

end World

/-! ### Outputs and the calls that they go back to -/

/-- A choice that a call can have had for an answer: of the same behaviour, as far as the call tells
what the behaviour saw. -/
def Choice.IsOf [Behaviour β] (o : Choice β) (c : Call β) : Prop :=
  c.form = .choose ∧ ∃ ctx vars, ctx.playback = c.playback ∧ ctx.graph = c.graph ∧
    ctx.index = c.index ∧ ctx.skipping = c.skipping ∧ o = Behaviour.choose ctx vars c.behaviour

/-- The call asked a node, in a run that was not skipped, and the output was the answer. -/
structure Call.Leaves [Behaviour β] (c : Call β) (index output : Nat) : Prop where
  index : c.index = index
  notSkipping : c.skipping = false
  answer : ∃ o : Choice β, o.IsOf c ∧ o.output = output

/-- What one of some nodes remembers. -/
def memoAt (nodes : List (Node β)) (index : Nat) : Option Nat := nodes[index]?.bind (·.memo)

/-- A change of one node, for what the nodes remember. -/
theorem memoAt_modify (nodes : List (Node β)) (index : Nat) (f : Node β → Node β) (i : Nat) :
    memoAt (nodes.modify index f) i =
      if index = i then nodes[i]?.bind fun n => (f n).memo else memoAt nodes i := by
  unfold memoAt
  rw [List.getElem?_modify]
  split_ifs
  · cases nodes[i]? <;> rfl
  · cases nodes[i]? <;> rfl

/-- A change of one node that its memo outlasts. -/
theorem memoAt_of_modify {nodes : List (Node β)} {index i output : Nat} {f : Node β → Node β}
    (h : memoAt (nodes.modify index f) i = some output) (hf : ∀ n, (f n).memo = n.memo) :
    memoAt nodes i = some output := by
  rw [memoAt_modify] at h
  split_ifs at h
  · simp only [hf] at h
    exact h
  · exact h

/-- A change of all nodes that their memos outlast. -/
theorem memoAt_of_map {nodes : List (Node β)} {index output : Nat} {f : Node β → Node β}
    (h : memoAt (nodes.map f) index = some output) (hf : ∀ n, (f n).memo = n.memo) :
    memoAt nodes index = some output := by
  unfold memoAt at h ⊢
  rw [List.getElem?_map, Option.bind_map] at h
  simpa only [Function.comp_def, hf] using h

namespace Playback

/-- None of the nodes remembers an output. -/
def RemembersNothing (p : Playback β) : Prop := ∀ index, memoAt p.nodes index = none

theorem remembersNothing_forgetChoices (p : Playback β) : p.forgetChoices.RemembersNothing := by
  intro index
  unfold memoAt forgetChoices
  rw [List.getElem?_map]
  cases p.nodes[index]? <;> rfl

/-- Everything that a playback remembers goes back to calls since it began last. Unless it has never
begun these were calls of its own. -/
def Mindful [Behaviour β] (p : Playback β) (w : World β) : Prop :=
  ∀ index output, memoAt p.nodes index = some output → ∃ c : Call β,
    .call c ∈ w.sinceBegan p.id ∧ c.graph = p.graph ∧ (w.HasBegun p.id → c.playback = p.id) ∧
      c.Leaves index output

variable [Behaviour β] {p q : Playback β} {w w' : World β}

theorem RemembersNothing.mindful (h : p.RemembersNothing) (w : World β) : p.Mindful w := by
  intro index output hmemo
  simp [h index] at hmemo

/-- It does no harm to forget, nor that time passes. -/
theorem Mindful.mono (h : p.Mindful w) (hid : q.id = p.id) (hg : q.graph = p.graph)
    (hm : ∀ index output, memoAt q.nodes index = some output →
      memoAt p.nodes index = some output) (hw : w.Lasts p.id w') : q.Mindful w' := by
  intro index output hmemo
  obtain ⟨c, hc, hgraph, hown, hleaves⟩ := h index output (hm index output hmemo)
  rw [hid, hg]
  exact ⟨c, hw.mem_sinceBegan hc, hgraph, fun hb => hown (hw.hasBegun hb), hleaves⟩

/-- What a playback remembers does not change as long as its nodes do not. -/
theorem Mindful.of_nodes_eq (h : p.Mindful w) (hid : q.id = p.id) (hg : q.graph = p.graph)
    (hn : q.nodes = p.nodes) (hw : w.Lasts p.id w') : q.Mindful w' :=
  h.mono hid hg (fun _ _ hmemo => hn ▸ hmemo) hw

theorem Mindful.clearBranches (h : p.Mindful w) : p.clearBranches.Mindful w :=
  h.mono rfl rfl (fun _ _ hmemo => memoAt_of_map hmemo fun _ => rfl) (.refl w p.id)

theorem Mindful.kill (h : p.Mindful w) : (p.kill w).1.Mindful (p.kill w).2 :=
  h.clearBranches.of_nodes_eq rfl rfl rfl (World.lasts_kill p w p.id)

end Playback

/-! ### Changes -/

namespace Turn

variable [Behaviour β] {t u : Turn β}

/-- No playback begins in the course of a turn. -/
theorem Change.lasts (h : t.Change u) (id : Nat) : t.world.Lasts id u.world := h.goesOn.lasts id

/-- What is remembered after a choice was remembered before, or is what has been chosen outside of a
skip. -/
theorem memoAt_chosen {index i output : Nat} {node : Node β} {b : β}
    (hn : t.playback.nodes[index]? = some node)
    (h : memoAt (t.chosen index node b).playback.nodes i = some output) :
    memoAt t.playback.nodes i = some output ∨
      i = index ∧ t.playback.skipping = false ∧ (t.choice index b).output = output := by
  have hmodify := memoAt_modify t.playback.nodes index (fun n => { n with
    behaviour := some (t.choice index b).behaviour
    memo := if !t.playback.skipping && 0 ≤ (t.choice index b).output then
      some (t.choice index b).output.toNat else node.memo }) i
  have h := hmodify.symm.trans h
  split_ifs at h with hi htakes
  · subst hi
    -- The choice has just been made, and the memo is of that.
    simp only [hn, Option.bind_some, Option.some.injEq] at h
    simp only [Bool.and_eq_true, Bool.not_eq_true', decide_eq_true_eq] at htakes
    exact Or.inr ⟨rfl, htakes.1, by omega⟩
  · subst hi
    -- Nothing was chosen, so the memo is the one from before.
    simp only [hn, Option.bind_some] at h
    refine Or.inl ?_
    rw [memoAt, hn]
    exact h
  · exact Or.inl h

/-- Nothing is learnt in a skip. -/
theorem Change.memoAt_of_skipping (hc : t.Change u) (hs : u.playback.skipping = true)
    {index output : Nat} (h : memoAt u.playback.nodes index = some output) :
    memoAt t.playback.nodes index = some output := by
  have hskips := hc.skipping hs
  cases hc with
  | skipped | ran | rested => exact memoAt_of_modify h fun _ => rfl
  | @recalled i =>
    have h :=
      (memoAt_modify t.playback.nodes i (fun n => { n with memo := none }) index).symm.trans h
    split_ifs at h
    · -- The output that has been taken again is forgotten.
      cases hn : t.playback.nodes[index]? <;> simp [hn] at h
    · exact h
  | chosen hn hb hm =>
    rcases memoAt_chosen hn h with hold | ⟨-, hplays, -⟩
    · exact hold
    · exact absurd hskips (by simp [hplays])
  | killed => exact memoAt_of_map h fun _ => rfl
  | _ => exact h

/-- What a node has chosen is in the journal from then on, as a call of the playback itself. -/
theorem mindful_chosen (h : t.playback.Mindful t.world) {index : Nat} {node : Node β} {b : β}
    (hc : t.Change (t.chosen index node b)) (hn : t.playback.nodes[index]? = some node) :
    (t.chosen index node b).playback.Mindful (t.chosen index node b).world := by
  have hworld := hc.lasts t.playback.id
  intro i output hmemo
  rcases memoAt_chosen hn hmemo with hold | ⟨rfl, hplays, houtput⟩
  · obtain ⟨c, hmem, hgraph, hown, hleaves⟩ := h i output hold
    exact ⟨c, hworld.mem_sinceBegan hmem, hgraph, fun hb => hown (hworld.hasBegun hb), hleaves⟩
  · have hanswer : (t.choice i b).IsOf (t.call .choose i b) :=
      ⟨rfl, t.choiceContext i, t.world.vars, rfl, rfl, rfl, rfl, rfl⟩
    have hcall : Entry.call (t.call .choose i b) ∈
        (t.noteCall .choose i b).world.sinceBegan t.playback.id := List.mem_cons_self
    have hmem := (World.lasts_absorbChoice _ (t.choice i b) _).mem_sinceBegan hcall
    exact ⟨t.call .choose i b, hmem, rfl, fun _ => rfl, rfl, hplays, _, hanswer, houtput⟩

/-- Every change leaves a mindful playback mindful. -/
theorem Change.mindful (hc : t.Change u) (h : t.playback.Mindful t.world) :
    u.playback.Mindful u.world := by
  have hw := hc.lasts t.playback.id
  obtain ⟨hid, hg⟩ := hc.id_eq
  cases hc with
  | skipped | ran | rested =>
    exact h.mono hid hg (fun _ _ hmemo => memoAt_of_modify hmemo fun _ => rfl) hw
  | @recalled index =>
    refine h.mono hid hg (fun i output hmemo => ?_) hw
    have hmodify := memoAt_modify t.playback.nodes index (fun n => { n with memo := none }) i
    have hmemo := hmodify.symm.trans hmemo
    split_ifs at hmemo
    · -- The output that has been taken again is forgotten.
      cases hn : t.playback.nodes[i]? <;> simp [hn] at hmemo
    · exact hmemo
  | chosen hn hb hm => exact mindful_chosen h (.chosen hn hb hm) hn
  | killed => exact h.kill
  | _ => exact h.of_nodes_eq hid hg rfl hw

/-- Turns that follow from a mindful playback leave it mindful, and no one else begins. -/
theorem Changes.mindful (hc : t.Changes u) (h : t.playback.Mindful t.world) :
    u.playback.Mindful u.world :=
  hc.invariant (I := fun u : Turn β => u.playback.Mindful u.world) h
    fun _ _ hu _ hchange => hchange.mindful hu

end Turn

/-! ### Operations -/

namespace Playback

variable {p : Playback β} {w : World β}

theorem remembersNothing_restarted (p : Playback β) (start : Nat) :
    (p.restarted start).RemembersNothing :=
  p.clearBranches.remembersNothing_forgetChoices

theorem lasts_skipTurn_of_active (hp : p.isActive = true) (w : World β) (start id : Nat) :
    w.Lasts id (p.skipTurn w start).world :=
  (p.hears_skipTurn w start).lasts fun _ _ hbegan => by simp [hp, Event.Kind.isOpening] at hbegan

theorem lasts_resumeTurn (p : Playback β) (w : World β) (start : Nat) (points : List Nat)
    (parameters : String) (rerun : Bool) (id : Nat) :
    w.Lasts id (p.resumeTurn w start points parameters rerun).world :=
  (p.hears_resumeTurn w start points parameters rerun).lasts
    fun _ _ hbegan => by simp [Event.Kind.isOpening] at hbegan

variable [Behaviour β]

theorem Mindful.stopped (h : p.Mindful w) : (p.stopped w).1.Mindful (p.stopped w).2 := by
  unfold Playback.stopped
  split_ifs
  · exact h.kill
  · exact h

theorem Mindful.interrupted (h : p.Mindful w) :
    (p.interrupted w).1.Mindful (p.interrupted w).2 := by
  unfold Playback.interrupted
  split_ifs
  · have hnoticed : p.Mindful (w.notice .resumedWhileRunning) :=
      h.of_nodes_eq rfl rfl rfl (w.lasts_noticeAll [.resumedWhileRunning] p.id)
    exact hnoticed.kill
  · exact h

/-- A skip of a run that is under way remembers what the run does, and one that is a run of its own
remembers nothing. -/
theorem Mindful.skipTurn (h : p.Mindful w) (start : Nat) :
    (p.skipTurn w start).playback.Mindful (p.skipTurn w start).world := by
  cases hp : p.isActive with
  | true =>
    have hnodes : (p.skipTurn w start).playback.nodes = p.clearBranches.nodes := by
      simp only [Playback.skipTurn, skippingFrom, hp, if_true]
    have hidentity := p.identity_skippingFrom start
    exact h.clearBranches.of_nodes_eq (congrArg Identity.id hidentity)
      (congrArg Identity.graph hidentity) hnodes (lasts_skipTurn_of_active hp w start p.id)
  | false =>
    have hnothing : (p.skipTurn w start).playback.RemembersNothing := by
      intro index
      simp only [Playback.skipTurn, skippingFrom, hp, Bool.false_eq_true, if_false]
      exact p.clearBranches.remembersNothing_forgetChoices index
    exact hnothing.mindful _

theorem Mindful.playBeginning (h : p.Mindful w) (start : Nat) (queue : Bool) :
    (p.playBeginning w start queue).playback.Mindful (p.playBeginning w start queue).world := by
  unfold Playback.playBeginning
  dsimp only
  split_ifs
  · exact h.stopped.kill
  · exact ((p.stopped w).1.remembersNothing_restarted start).mindful _
  · exact ((p.stopped w).1.remembersNothing_restarted start).mindful _

theorem Mindful.skipBeginning (h : p.Mindful w) (start : Nat) :
    (p.skipBeginning w start).playback.Mindful (p.skipBeginning w start).world := by
  unfold Playback.skipBeginning
  split_ifs
  · exact h.kill
  · exact h.skipTurn start

theorem Mindful.pause (h : p.Mindful w) : (p.pause w).1.Mindful (p.pause w).2 := by
  by_cases hidle : p.phase ≠ .running ∨ p.skipping = true
  · rw [pause_of_not_playing w hidle]
    exact h
  · obtain ⟨hrun, hskip⟩ : p.phase = .running ∧ p.skipping = false := by simpa using hidle
    rw [pause_of_playing w hrun hskip]
    split_ifs
    · exact h.of_nodes_eq rfl rfl rfl (World.lasts_endPause ⟨p.pausing, w, []⟩ p.id)
    · exact h.of_nodes_eq rfl rfl rfl (.refl w p.id)

/-- A run that is resumed remembers what it did, whether it was paused or over. -/
theorem Mindful.resumeBeginning (h : p.Mindful w) (start : Nat) (points : List Nat)
    (parameters : String) (rerun : Bool) :
    (p.resumeBeginning w start points parameters rerun).playback.Mindful
      (p.resumeBeginning w start points parameters rerun).world := by
  unfold Playback.resumeBeginning
  by_cases hp : points = []
  · rw [if_pos hp]
    exact h.playBeginning start true
  · rw [if_neg hp]
    -- To interrupt and to revive leave memos as they are.
    have hw := lasts_resumeTurn (p.interrupted w).1 (p.interrupted w).2 start points parameters
      rerun (p.interrupted w).1.id
    have hresumed := h.interrupted.clearBranches.of_nodes_eq
      (q := ((p.interrupted w).1.resumeTurn (p.interrupted w).2 start points parameters
        rerun).playback) rfl rfl rfl hw
    dsimp only
    split_ifs
    · exact hresumed.of_nodes_eq rfl rfl rfl (World.lasts_endRun _ _)
    · exact hresumed

theorem Mindful.updateBeginning (h : p.Mindful w) :
    (p.updateBeginning w).playback.Mindful (p.updateBeginning w).world := by
  have hwaiting : (p.waiting w).Mindful w := h.of_nodes_eq rfl rfl rfl (.refl w p.id)
  unfold Playback.updateBeginning
  split_ifs
  · exact h
  · exact h.clearBranches.of_nodes_eq rfl rfl rfl (w.lasts_noticeAll [.unregistered] p.id)
  · exact hwaiting
  · exact hwaiting.kill
  · exact hwaiting.of_nodes_eq rfl rfl rfl (.refl w p.id)
  · exact hwaiting

theorem Mindful.halt (h : p.Mindful w) : p.halt.Mindful w := by
  have hcleared := h.clearBranches
  unfold Playback.halt
  dsimp only
  split_ifs
  · exact hcleared.of_nodes_eq rfl rfl rfl (.refl w p.id)
  · exact hcleared.of_nodes_eq rfl rfl rfl (.refl w p.id)

theorem Mindful.beginning (h : p.Mindful w) (op : Operation) :
    (p.beginning w op).playback.Mindful (p.beginning w op).world := by
  cases op with
  | play start queue => exact h.playBeginning start queue
  | skip start => exact h.skipBeginning start
  | pause => exact h.pause
  | resume start points parameters rerun => exact h.resumeBeginning start points parameters rerun
  | kill => exact h.kill
  | update => exact h.updateBeginning
  | reset unqueue =>
    change (p.reset w unqueue).1.Mindful (p.reset w unqueue).2
    unfold Playback.reset
    split_ifs
    · exact h
    · exact h.halt.of_nodes_eq rfl rfl rfl (.of_journal_eq rfl)

variable {fuel : Nat} {op : Operation} {r : Playback β × World β}

/-- A mindful playback stays mindful, whatever it is asked to do. -/
theorem Mindful.perform (h : p.Mindful w) (hs : p.skipping = false)
    (hr : p.perform fuel w op = some r) : r.1.Mindful r.2 := by
  rw [perform_eq] at hr
  obtain ⟨u, hu, rfl, -⟩ := Turn.changes_run (straight_beginning hs w op) hr
  exact hu.mindful (h.beginning op)

/-- And the others are where they were. -/
theorem lasts_perform {id : Nat} (hne : id ≠ p.id) (hs : p.skipping = false)
    (hr : p.perform fuel w op = some r) : w.Lasts id r.2 :=
  (hears_perform hs hr).lasts fun hid => absurd hid.symm hne

end Playback

end Cutscene
