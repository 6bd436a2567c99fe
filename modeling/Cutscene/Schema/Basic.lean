import Cutscene.Json.Basic

/-!
# Structured data

Graphs, documents and settings are read from structured data of several notations. `Structured` is
what a notation has to offer; the readers of the other modules here are written once for all of
them.
-/

namespace Cutscene

/-- How typed values are read from the data of a notation. -/
class Structured (τ : Type) where
  text? : τ → Option String
  flag? : τ → Option Bool
  /-- A whole number of 64 bits with a sign. -/
  whole? : τ → Option Int
  /-- A natural number of 64 bits. -/
  natural? : τ → Option Nat
  single? : τ → Option Float32
  /-- What there is, if it does not say that there is nothing. -/
  present? : τ → Option (Option τ)
  items? : τ → Option (List τ)
  /-- The fields of a record with the given names, in the order of the names. A field that occurs
  twice is a mistake; other fields are passed over. -/
  fields? : List String → τ → Option (List (Option τ))
  /-- The members of a record, whatever their names. -/
  members? : τ → Option (List (String × τ))
  /-- A name out of several, with what comes with it. -/
  choice? : τ → Option (String × Option τ)
  json? : τ → Option Json

namespace Schema

variable {τ α β : Type} [Structured τ]

/-- Reads a field that has to be there. -/
def required (read : τ → Option α) (field : Option τ) : Option α := field.bind read

/-- Reads a field that need not be there. -/
def optional (otherwise : α) (read : τ → Option α) : Option τ → Option α
  | none => some otherwise
  | some t => read t

/-- Reads a value that may be nothing. -/
def nullable (read : τ → Option α) (t : τ) : Option (Option α) := do
  match ← Structured.present? t with
  | none => return none
  | some t => return some (← read t)

/-- Reads every item. -/
def listOf (read : τ → Option α) (t : τ) : Option (List α) :=
  (Structured.items? t).bind fun items => items.mapM read

/-- Reads a whole number of 32 bits with a sign. -/
def int32? (t : τ) : Option Int32 :=
  (Structured.whole? t).bind Number.int32?

/-- Reads a natural number below a bound. -/
def natBelow? (bound : Nat) (t : τ) : Option Nat :=
  (Structured.natural? t).bind fun n => if n < bound then some n else none

/-- Reads a natural number of 64 bits. -/
def word? (t : τ) : Option Nat := natBelow? UInt64.size t

/-- Reads a choice that comes with nothing. -/
def bare (value : α) (payload : Option τ) : Option α :=
  match payload with
  | none => some value
  | some t =>
    match Structured.present? t with
    | some none => some value
    | _ => none

/-- Reads a choice that comes with a value. -/
def carrying (make : α → β) (read : τ → Option α) (payload : Option τ) : Option β :=
  (payload.bind read).map make

/-- Reads the params of a node by name. -/
def members? (t : τ) : Option (List (String × Json)) :=
  (Structured.members? t).bind fun members =>
    (members.mapM fun (m : String × τ) => (Structured.json? m.2).map (m.1, ·)).map
      (Json.normalMembers [])

end Schema

end Cutscene
