import Cutscene.Playback.Basic
import Mathlib.Tactic.SplitIfs

/-!
# What the journal says of a playback

`World.eventsOf` reads the events of one playback off the journal, oldest first, and `World.news`
the ones among them that an earlier world does not know yet; `World.runsOf` reads off what the
playback ran or skipped. Calls and notices are no events: a world that differs from another by them,
by variables and by commands is `World.Quiet`ly later.
-/

namespace Cutscene

variable {β : Type}

/-- What an entry of the journal says happened to a playback. -/
def Entry.kindFor? (id : Nat) : Entry β → Option Event.Kind
  | .event e => if e.playback = id then some e.kind else none
  | .call _ => none
  | .notice _ => none

/-- What an entry of the journal says was run or skipped: a node of a playback and its behaviour. -/
def Entry.runFor? (id : Nat) : Entry β → Option (Nat × β)
  | .event _ => none
  | .call c => if c.playback = id ∧ c.form ≠ .choose then some (c.index, c.behaviour) else none
  | .notice _ => none

namespace World

/-- What happened to a playback, oldest first. -/
def eventsOf (w : World β) (id : Nat) : List Event.Kind :=
  (w.journal.filterMap (Entry.kindFor? id)).reverse

/-- What happened to a playback since an earlier world, oldest first. -/
def news (w w' : World β) (id : Nat) : List Event.Kind :=
  (w'.eventsOf id).drop (w.eventsOf id).length

/-- What a playback ran or skipped, oldest first: its nodes, and their behaviours as they were. -/
def runsOf (w : World β) (id : Nat) : List (Nat × β) :=
  (w.journal.filterMap (Entry.runFor? id)).reverse

theorem news_of_eventsOf_eq_append {w w' : World β} {id : Nat} {kinds : List Event.Kind}
    (h : w'.eventsOf id = w.eventsOf id ++ kinds) : w.news w' id = kinds := by
  rw [news, h, List.drop_left]

theorem eventsOf_note (w : World β) (entry : Entry β) (id : Nat) :
    (w.note entry).eventsOf id = w.eventsOf id ++ (entry.kindFor? id).toList := by
  unfold eventsOf note
  cases h : entry.kindFor? id <;> simp [h]

theorem eventsOf_emit (p : Playback β) (kind : Event.Kind) (w : World β) (id : Nat) :
    (p.emit kind w).eventsOf id = w.eventsOf id ++ if p.id = id then [kind] else [] := by
  rw [Playback.emit, eventsOf_note, Entry.kindFor?]
  split_ifs <;> rfl

theorem runsOf_note (w : World β) (entry : Entry β) (id : Nat) :
    (w.note entry).runsOf id = w.runsOf id ++ (entry.runFor? id).toList := by
  unfold runsOf note
  cases h : entry.runFor? id <;> simp [h]

theorem runsOf_noticeAll (w : World β) (notices : List Notice) (id : Nat) :
    (w.noticeAll notices).runsOf id = w.runsOf id := by
  induction notices generalizing w with
  | nil => rfl
  | cons notice rest ih =>
    have hnotice : (w.notice notice).runsOf id = w.runsOf id := by
      rw [World.notice, runsOf_note]
      simp [Entry.runFor?]
    exact (ih (w.notice notice)).trans hnotice

@[simp]
theorem eventsOf_emit_self (p : Playback β) (kind : Event.Kind) (w : World β) :
    (p.emit kind w).eventsOf p.id = w.eventsOf p.id ++ [kind] := by
  simp [eventsOf_emit]

@[simp]
theorem eventsOf_emit_of_ne (p : Playback β) (kind : Event.Kind) (w : World β) {id : Nat}
    (h : id ≠ p.id) : (p.emit kind w).eventsOf id = w.eventsOf id := by
  simp [eventsOf_emit, h.symm]

@[simp]
theorem eventsOf_withRegistry (w : World β) (registry : Registry) (id : Nat) :
    ({ w with registry } : World β).eventsOf id = w.eventsOf id := rfl

/-- Notices are all that is added. -/
theorem noticeAll_eq (w : World β) (notices : List Notice) :
    w.noticeAll notices = { w with journal := (notices.map .notice).reverse ++ w.journal } := by
  induction notices generalizing w with
  | nil => rfl
  | cons notice rest ih =>
    -- The journal has its latest entry first, so the first notice ends up behind the others.
    rw [noticeAll, List.foldl_cons]
    refine (ih _).trans ?_
    simp [World.notice, note]

/-! ### Worlds that only differ by what no event tells -/

/-- Later than another world, but no playback started, stopped or was registered meanwhile. -/
structure Quiet (w w' : World β) : Prop where
  clock : w'.clock = w.clock
  registry : w'.registry = w.registry
  config : w'.config = w.config
  sceneLoading : w'.sceneLoading = w.sceneLoading
  events : ∀ id, w'.eventsOf id = w.eventsOf id

theorem Quiet.refl (w : World β) : w.Quiet w := ⟨rfl, rfl, rfl, rfl, fun _ => rfl⟩

theorem Quiet.trans {w₁ w₂ w₃ : World β} (h : w₁.Quiet w₂) (h' : w₂.Quiet w₃) : w₁.Quiet w₃ where
  clock := h'.clock.trans h.clock
  registry := h'.registry.trans h.registry
  config := h'.config.trans h.config
  sceneLoading := h'.sceneLoading.trans h.sceneLoading
  events id := (h'.events id).trans (h.events id)

theorem quiet_notice (w : World β) (notice : Notice) : w.Quiet (w.notice notice) := by
  refine ⟨rfl, rfl, rfl, rfl, fun id => ?_⟩
  rw [World.notice, eventsOf_note]
  simp [Entry.kindFor?]

theorem quiet_noticeAll (w : World β) (notices : List Notice) : w.Quiet (w.noticeAll notices) := by
  induction notices generalizing w with
  | nil => exact Quiet.refl w
  | cons notice rest ih =>
    have hnotice := w.quiet_notice notice
    exact hnotice.trans (ih _)

theorem quiet_note_call (w : World β) (call : Call β) : w.Quiet (w.note (.call call)) := by
  refine ⟨rfl, rfl, rfl, rfl, fun id => ?_⟩
  rw [eventsOf_note]
  simp [Entry.kindFor?]

theorem quiet_raise (w : World β) (command : Command) : w.Quiet (w.raise command) :=
  ⟨rfl, rfl, rfl, rfl, fun _ => rfl⟩

theorem quiet_absorb (w : World β) (o : Outcome β) : w.Quiet (w.absorb o) := by
  have h : w.Quiet { w with vars := o.vars, commands := w.commands ++ o.commands } :=
    ⟨rfl, rfl, rfl, rfl, fun _ => rfl⟩
  exact h.trans (quiet_noticeAll _ o.notices)

theorem quiet_absorbChoice (w : World β) (c : Choice β) : w.Quiet (w.absorbChoice c) := by
  have h : w.Quiet { w with vars := c.vars } := ⟨rfl, rfl, rfl, rfl, fun _ => rfl⟩
  exact h.trans (quiet_noticeAll _ c.notices)

/-! ### Worlds in which something has been heard of one playback -/

/-- The same world, but for what has been heard of a playback. -/
structure Tells (w : World β) (id : Nat) (kinds : List Event.Kind) (w' : World β) : Prop where
  clock : w'.clock = w.clock
  registry : w'.registry = w.registry
  config : w'.config = w.config
  sceneLoading : w'.sceneLoading = w.sceneLoading
  events : ∀ j, w'.eventsOf j = w.eventsOf j ++ if id = j then kinds else []

theorem tells_emit (p : Playback β) (kind : Event.Kind) (w : World β) :
    w.Tells p.id [kind] (p.emit kind w) :=
  ⟨rfl, rfl, rfl, rfl, eventsOf_emit p kind w⟩

theorem Tells.append {w₁ w₂ w₃ : World β} {id : Nat} {kinds kinds' : List Event.Kind}
    (h : w₁.Tells id kinds w₂) (h' : w₂.Tells id kinds' w₃) :
    w₁.Tells id (kinds ++ kinds') w₃ where
  clock := h'.clock.trans h.clock
  registry := h'.registry.trans h.registry
  config := h'.config.trans h.config
  sceneLoading := h'.sceneLoading.trans h.sceneLoading
  events j := by
    rw [h'.events, h.events, List.append_assoc]
    split_ifs <;> rfl

end World

end Cutscene
