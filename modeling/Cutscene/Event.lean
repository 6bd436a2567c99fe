import Cutscene.Text.Quoted

/-!
# Events

What happens to playbacks, as the host hears of it, and the observers that hear it.
-/

namespace Cutscene

/-- What happened to a playback. -/
inductive Event.Kind where
  | began (start : Nat)
  | ended (killed : Bool)
  | paused (resumePoints : List Nat)
  | resumed
  | skipped (start : Nat)
  /-- A playback ended by itself with a conversation to follow. -/
  | conversationDue (conversation : String)
deriving DecidableEq, Repr

/-- Something that happened to a playback of a graph. -/
structure Event where
  playback : Nat
  graph : String
  kind : Event.Kind
deriving DecidableEq, Repr

/-- The name of what happened. -/
def Event.Kind.name : Event.Kind → String
  | .began _ => "begin"
  | .ended _ => "end"
  | .paused _ => "pause"
  | .resumed => "resume"
  | .skipped _ => "skip"
  | .conversationDue _ => "conversation_on_end"

/-- Named observers, in the order in which their names were first registered. -/
structure Observers (α : Type) where
  entries : List (String × α) := []

namespace Observers

variable {α : Type}

/-- Registers an observer; one with the same name gives way to it and leaves it its place. -/
def register (o : Observers α) (name : String) (observer : α) : Observers α :=
  if o.entries.any (·.1 = name) then
    ⟨o.entries.map fun e => if e.1 = name then (name, observer) else e⟩
  else ⟨o.entries ++ [(name, observer)]⟩

/-- There is an observer with a name. -/
def has (o : Observers α) (name : String) : Bool := o.entries.any (·.1 = name)

/-- Removes the observer with a name. -/
def remove (o : Observers α) (name : String) : Observers α :=
  ⟨o.entries.filter (·.1 ≠ name)⟩

/-- The names in order. -/
def names (o : Observers α) : List String := o.entries.map (·.1)

/-- The observers as a text. -/
def text (o : Observers α) : String :=
  "EventBus \x7b observers: [" ++ ", ".intercalate (o.names.map Text.quoted) ++ "] \x7d"

/-- Who hears an event, in order. -/
def hear (o : Observers α) (event : Event) : List (α × Event) :=
  o.entries.map fun e => (e.2, event)

end Observers

end Cutscene
