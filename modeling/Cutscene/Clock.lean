import Cutscene.Number.Layout

/-!
# The clock

Host time in seconds. Real time always moves on; scaled time moves at `Clock.rate` and stands
still while that is zero.
-/

namespace Cutscene

/-- Host time as the scheduler sees it. -/
structure Clock where
  scaled : Float
  real : Float
  /-- Scaled seconds in a real second. -/
  rate : Float32
  /-- Pause menus are open. -/
  menus : Bool
  /-- The number of advances so far. -/
  frame : Nat
deriving DecidableEq

namespace Clock

/-- A clock that has not moved. -/
def start : Clock := ⟨0, 0, 1, false, 0⟩

/-- A length of time in seconds. -/
def seconds (nanoseconds : Nat) : Float :=
  Number.doubleOfInt (nanoseconds / 1000000000 : Nat) +
    Number.doubleOfInt (nanoseconds % 1000000000 : Nat) / 1000000000

/-- Moves on by a length of time. -/
def advance (c : Clock) (nanoseconds : Nat) : Clock :=
  let s := seconds nanoseconds
  { c with real := c.real + s, scaled := c.scaled + s * Number.widen c.rate, frame := c.frame + 1 }

/-- Sets the rate of scaled time; it is never negative. -/
def setRate (c : Clock) (rate : Float32) : Clock :=
  { c with rate := if 0 < rate then rate else 0 }

/-- Scaled time stands still. -/
def isFrozen (c : Clock) : Bool := c.rate == 0

/-- The present moment, in real or in scaled time. -/
def now (c : Clock) (realtime : Bool) : Float := if realtime then c.real else c.scaled

end Clock

end Cutscene
