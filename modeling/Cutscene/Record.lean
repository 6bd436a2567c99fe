import Cutscene.Number.Decimal
import Cutscene.Text.Blank
import Cutscene.Text.Escape
import Cutscene.Text.Pieces
import Cutscene.Notice

/-!
# Records

The registry keeps a record of each playback: enough to skip it, to resume it, or to save it. The
saved form is

  `graph:point]point:start:queued:running:conversation:parameters`

with the graph and the conversation escaped. `Record.save?` writes it and `Record.load` reads any
text back, numbers it cannot read as zero, except that a record needs a graph.
-/

namespace Cutscene

/-- What the registry knows of a playback. -/
structure Record where
  graph : String
  /-- The playback, unless the record comes from a save. -/
  playback : Option Nat := none
  /-- It waits in the skip queue. -/
  queued : Bool := false
  running : Bool := false
  /-- The nodes at which a paused playback goes on. -/
  resumePoints : List Nat := []
  start : Nat := 0
  conversation : Option String := none
  /-- A snapshot of the parameters of a paused playback. -/
  parameters : String := ""
deriving DecidableEq, Repr, Inhabited

/-- What to skip, as taken out of the skip queue. -/
structure SkipRequest where
  graph : String
  playback : Option Nat
  start : Nat
  conversation : Option String
deriving DecidableEq, Repr

namespace Record

/-- It can be resumed. -/
def isPaused (r : Record) : Bool := !r.running && !r.resumePoints.isEmpty

/-- It runs, waits in the skip queue, or can be resumed. Others can be dropped. -/
def isNecessary (r : Record) : Bool := r.running || r.queued || !r.resumePoints.isEmpty

/-- Detached from its playback, which no longer runs. -/
def reset (r : Record) (unqueue : Bool) : Record :=
  { r with running := false, queued := r.queued && !unqueue }

/-- What to skip, if it waits in the skip queue. -/
def skipRequest? (r : Record) : Option SkipRequest :=
  if r.queued then some ⟨r.graph, r.playback, r.start, r.conversation⟩ else none

/-! ### The saved form -/

/-- A flag of the saved form. -/
def flag (b : Bool) : String := if b then "1" else "0"

/-- The saved form. A running record has none, nor one without a graph. -/
def save? (r : Record) : Option String :=
  if r.running || r.graph.isEmpty then none
  else some <| ":".intercalate
    [Text.escape r.graph,
      "]".intercalate (r.resumePoints.map toString),
      toString r.start,
      flag r.queued,
      flag r.running,
      (r.conversation.map Text.escape).getD "",
      r.parameters]

/-- Reads a number of the saved form. -/
def readNumber (cs : List Char) : Nat := (Number.readWord? cs).getD 0

/-- Reads a record and what there is to say about it. -/
def load (cs : List Char) : Option Record × List Notice :=
  let fields := Text.cut ':' cs
  let field (i : Nat) : List Char := fields.getD i []
  let graph := String.ofList (Text.unescapeChars (Text.trimChars (field 0)))
  if graph.isEmpty then (none, [.recordWithoutGraph])
  else
    let conversation := field 5
    (some {
        graph
        playback := none
        resumePoints := ((Text.cut ']' (field 1)).filter (!·.isEmpty)).map readNumber
        start := readNumber (field 2)
        queued := field 3 = ['1']
        running := field 4 = ['1']
        conversation :=
          if conversation.isEmpty then none
          else some (.ofList (Text.unescapeChars conversation))
        parameters := .ofList (field 6) },
      if 7 < fields.length then [.recordWithExtraFields] else [])

end Record

end Cutscene
