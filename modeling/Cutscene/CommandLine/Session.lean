import Cutscene.Behaviour.Builtin
import Cutscene.CommandLine.Arguments
import Cutscene.CommandLine.ServerAddress
import Cutscene.Engine.Operations
import Cutscene.Loading

/-!
# Sessions

A session runs one graph from its trigger until nothing runs, tick by tick. `Session.start` prepares
it, `Session.step` is one tick, and `Invocation.outcome?` is all that an invocation comes to.
-/

namespace Cutscene.CommandLine

/-- How the program ends: with an exit code, what it prints, and what it says about a failure, which
may have a reason. -/
structure Outcome where
  exit : Nat := 0
  output : String := ""
  error : Option String := none
  cause : Option String := none
deriving DecidableEq, Repr

namespace Outcome

/-- The words could not be understood. -/
def misuse : Outcome := { exit := 2 }

/-- The program failed. -/
def failure (message : String) (cause : Option String := none) : Outcome :=
  { exit := 1, error := some ("Error: " ++ message), cause }

/-- The program broke down. -/
def breakdown : Outcome := { exit := 101 }

/-- The engine refused. -/
def refused (error : EngineError) : Outcome :=
  failure (error.message?.getD "malformed condition")

end Outcome

/-- Makes an engine that has the graphs in files, each of which has to be valid. -/
def buildEngine (files : Files) (e : Engine Builtin) :
    List String → Except Outcome (Engine Builtin)
  | [] => .ok e
  | path :: rest =>
    match files.loadGraph path with
    | .error error => .error (.failure error.message error.cause?)
    | .ok graph =>
      match e.validate graph with
      | .error error => .error (.refused error)
      | .ok () => buildEngine files (e.register graph) rest

/-- A graph that is being run. -/
structure Session where
  request : RunRequest
  engine : Engine Builtin
  /-- The playback that was triggered. -/
  playback : Nat
  /-- The nanoseconds from one tick to the next. -/
  interval : Nat
  skipped : Bool := false
  paused : Bool := false

namespace Session

/-- Loads what a request names and triggers its graph. -/
def start (fuel : Nat) (files : Files) (request : RunRequest) :
    Option (Except Outcome Session) :=
  let prepared : Except Outcome (Engine Builtin) := do
    let config ← match request.config with
      | none => pure {}
      | some path =>
        match files.loadConfig path with
        | .ok config => pure config
        | .error error => .error (.failure error.message)
    match request.server.bind ServerAddress.refusal? with
    | some refusal => .error (.failure refusal.message)
    | none => buildEngine files (.ofKinds config Builtin.kinds) request.files
  match prepared with
  | .error outcome => some (.error outcome)
  | .ok engine =>
    (engine.trigger fuel request.graph {}).map fun (engine, result) =>
      match result with
      | .error error => .error (.refused error)
      | .ok playback =>
        let interval := engine.world.config.tickInterval
        if interval = 0 then .error .breakdown
        else .ok { request, engine, playback, interval }

/-- The seconds since the session was started. -/
def elapsed (s : Session) : Float32 := Number.narrow s.engine.world.clock.real

/-- A moment has come, if one was given. -/
def reached (s : Session) : Option Float32 → Bool
  | some seconds => seconds ≤ s.elapsed
  | none => false

/-- Skips what is queued when it is time. -/
def skipInTime (fuel : Nat) (s : Session) : Option Session :=
  if s.reached s.request.skipAfter && !s.skipped then
    (s.engine.skipAll fuel).map fun engine => { s with engine, skipped := true }
  else some s

/-- Pauses the graph when it is time. -/
def pauseInTime (fuel : Nat) (s : Session) : Option Session :=
  if s.reached s.request.pauseAfter && !s.paused then
    (s.engine.pause fuel s.playback).map fun (engine, _) => { s with engine, paused := true }
  else some s

/-- What is printed at the end: the saved records, unless they go to a server. No server can be
reached from here. -/
def finish (request : RunRequest) (e : Engine Builtin) : Outcome :=
  match request.server with
  | some _ => .failure "Connection refused (os error 111)"
  | none => if e.save.isEmpty then {} else { output := e.save ++ "\n" }

/-- One tick, and what is due after it: the outcome if that was the last one. -/
def step (fuel : Nat) (s : Session) : Option (Session ⊕ Outcome) := do
  let engine ← s.engine.tick fuel s.interval
  let s ← { s with engine }.skipInTime fuel
  let s ← s.pauseInTime fuel
  if !s.engine.instances.any (·.isRunning) then return .inr (finish s.request s.engine)
  else if s.reached (some s.request.maxSeconds) then
    return .inr (finish s.request s.engine.killAll)
  else return .inl s

/-- Forgets what has been noted. -/
def quiet (s : Session) : Session :=
  { s with engine := { s.engine with world := { s.engine.world with journal := [] } } }

/-- The outcome after at most `ticks` ticks. -/
def run (fuel : Nat) : Nat → Session → Option Outcome
  | 0, _ => none
  | ticks + 1, s => do
    match ← s.step fuel with
    | .inl s => run fuel ticks s.quiet
    | .inr outcome => return outcome

end Session

/-- How to call the program. -/
def usage : String :=
  "Usage:\n" ++
  "  cutscene run FILES... --graph GRAPH [--config FILE] [--skip-after SECONDS]\n" ++
  "      [--pause-after SECONDS] [--max-seconds SECONDS] [--redis URL] [--slot SLOT]\n" ++
  "  cutscene check FILES...\n"

namespace Invocation

/-- The files that an invocation names. -/
def paths : Invocation → List String
  | .run request => request.config.toList ++ request.files
  | .check files => files
  | _ => []

/-- The outcome of an invocation; `fuel` bounds each turn of a playback and the number of ticks. -/
def outcome? (fuel : Nat) (files : Files) : Invocation → Option Outcome
  | .help => some { output := usage }
  | .version => some { output := "cutscene 0.1.0\n" }
  | .check paths =>
    match buildEngine files (.ofKinds {} Builtin.kinds) paths with
    | .ok _ => some {}
    | .error outcome => some outcome
  | .run request => do
    match ← Session.start fuel files request with
    | .ok session => session.run fuel fuel
    | .error outcome => return outcome

end Invocation

/-- The outcome of a command line. -/
def outcome? (fuel : Nat) (files : Files) (words : List String) : Option Outcome :=
  match Invocation.of? words with
  | none => some .misuse
  | some invocation => invocation.outcome? fuel files

end Cutscene.CommandLine
