import Cutscene.Proofs.Journal

/-!
# What an operation leaves behind

`World.since` gathers what is new in a world in a `Log`: what was heard of one playback, which
behaviours were called, and which commands were raised. Worlds that are reached one after the other
have logs that are appended to each other (`Grows.trans`). `Outcome.IsOf` ties a call to the outcome
that it had.
-/

namespace Cutscene

variable {β : Type}

/-- What an operation on a playback leaves behind. -/
structure Log (β : Type) where
  /-- What was heard of the playback. -/
  events : List Event.Kind := []
  calls : List (Call β) := []
  commands : List Command := []

namespace Log

/-- One log after the other. -/
def append (l l' : Log β) : Log β :=
  ⟨l.events ++ l'.events, l.calls ++ l'.calls, l.commands ++ l'.commands⟩

instance : Append (Log β) := ⟨append⟩

@[simp]
theorem events_append (l l' : Log β) : (l ++ l').events = l.events ++ l'.events := rfl

@[simp]
theorem calls_append (l l' : Log β) : (l ++ l').calls = l.calls ++ l'.calls := rfl

@[simp]
theorem commands_append (l l' : Log β) : (l ++ l').commands = l.commands ++ l'.commands := rfl

@[simp]
theorem empty_append (l : Log β) : ({} : Log β) ++ l = l := rfl

end Log

/-- The call that an entry of the journal notes. -/
def Entry.call? : Entry β → Option (Call β)
  | .event _ => none
  | .call c => some c
  | .notice _ => none

namespace World

/-- The calls of behaviours, oldest first. -/
def calls (w : World β) : List (Call β) := (w.journal.filterMap Entry.call?).reverse

/-- What is new in a world, with what was heard of one playback. -/
def since (w w' : World β) (id : Nat) : Log β where
  events := w.news w' id
  calls := w'.calls.drop w.calls.length
  commands := w'.commands.drop w.commands.length

/-- A world comes after another, and a log tells them apart. -/
structure Grows (w : World β) (id : Nat) (log : Log β) (w' : World β) : Prop where
  events : w'.eventsOf id = w.eventsOf id ++ log.events
  calls : w'.calls = w.calls ++ log.calls
  commands : w'.commands = w.commands ++ log.commands

theorem Grows.since_eq {w w' : World β} {id : Nat} {log : Log β} (h : w.Grows id log w') :
    w.since w' id = log := by
  rw [since, news_of_eventsOf_eq_append h.events, h.calls, h.commands, List.drop_left,
    List.drop_left]

theorem Grows.refl (w : World β) (id : Nat) : w.Grows id {} w where
  events := (List.append_nil _).symm
  calls := (List.append_nil _).symm
  commands := (List.append_nil _).symm

theorem Grows.trans {w₁ w₂ w₃ : World β} {id : Nat} {log log' : Log β} (h : w₁.Grows id log w₂)
    (h' : w₂.Grows id log' w₃) : w₁.Grows id (log ++ log') w₃ where
  events := by rw [h'.events, h.events, List.append_assoc]; rfl
  calls := by rw [h'.calls, h.calls, List.append_assoc]; rfl
  commands := by rw [h'.commands, h.commands, List.append_assoc]; rfl

/-! ### What the journal says of calls -/

theorem calls_note (w : World β) (entry : Entry β) :
    (w.note entry).calls = w.calls ++ entry.call?.toList := by
  unfold calls note
  cases h : entry.call? <;> simp [h]

@[simp]
theorem calls_note_call (w : World β) (c : Call β) :
    (w.note (.call c)).calls = w.calls ++ [c] := calls_note w (.call c)

@[simp]
theorem calls_emit (p : Playback β) (kind : Event.Kind) (w : World β) :
    (p.emit kind w).calls = w.calls := by
  rw [Playback.emit, calls_note]
  exact List.append_nil _

@[simp]
theorem calls_notice (w : World β) (notice : Notice) : (w.notice notice).calls = w.calls := by
  rw [World.notice, calls_note]
  exact List.append_nil _

@[simp]
theorem calls_noticeAll (w : World β) (notices : List Notice) :
    (w.noticeAll notices).calls = w.calls := by
  induction notices generalizing w with
  | nil => rfl
  | cons notice rest ih => exact (ih (w.notice notice)).trans (w.calls_notice notice)

@[simp]
theorem calls_absorb (w : World β) (o : Outcome β) : (w.absorb o).calls = w.calls :=
  calls_noticeAll _ _

@[simp]
theorem calls_absorbChoice (w : World β) (c : Choice β) : (w.absorbChoice c).calls = w.calls :=
  calls_noticeAll _ _

@[simp]
theorem commands_noticeAll (w : World β) (notices : List Notice) :
    (w.noticeAll notices).commands = w.commands := by
  rw [noticeAll_eq]

@[simp]
theorem commands_absorb (w : World β) (o : Outcome β) :
    (w.absorb o).commands = w.commands ++ o.commands :=
  commands_noticeAll _ _

/-- A playback that is killed is no one's call. -/
theorem calls_kill (p : Playback β) (w : World β) : (p.kill w).2.calls = w.calls := by
  unfold Playback.kill
  dsimp only
  split_ifs
  · exact calls_emit _ _ _
  · rfl

end World

/-- An outcome that a call can have had: of the same behaviour, as far as the call tells what the
behaviour saw. -/
def Outcome.IsOf [Behaviour β] (o : Outcome β) (c : Call β) : Prop :=
  (c.form = .run ∨ c.form = .poll) ∧ ∃ ctx vars, ctx.playback = c.playback ∧ ctx.graph = c.graph ∧
    ctx.index = c.index ∧ ctx.skipping = c.skipping ∧ (ctx.running = true ↔ c.form = .poll) ∧
    o = Behaviour.run ctx vars c.behaviour

end Cutscene
