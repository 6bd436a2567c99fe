import Cutscene.CommandLine.Session

/-!
# The program

Reads the files that the command line names, carries out what it asks for at the pace of the clock,
and prints what comes of it.
-/

namespace Cutscene.CommandLine

/-- A bound for the turns of a playback that no run comes near. -/
def ample : Nat := 1000000000000

/-- The text of a file, if it can be read. -/
def readText (path : String) : IO (Option String) := do
  try
    return some (← IO.FS.readFile path)
  catch _ =>
    return none

/-- The files at paths that can be read. -/
def readTexts (paths : List String) : IO Files := do
  let texts ← paths.filterMapM fun path => do return (← readText path).map (path, ·)
  return { texts }

/-- The notices in the journal of a session, in order. -/
def Session.notices (s : Session) : List Notice :=
  s.engine.world.journal.reverse.filterMap fun
    | .notice notice => some notice
    | _ => none

/-- Writes the notices of a session to the log. -/
def Session.report (s : Session) : IO Unit :=
  s.notices.forM fun notice => IO.eprintln (notice.level.word ++ ": " ++ notice.message)

/-- Runs a session to its end, one tick after the other. -/
partial def Session.pace (s : Session) : IO Outcome := do
  match s.step ample with
  | none => return .breakdown
  | some (.inr outcome) => return outcome
  | some (.inl s) =>
    s.report
    IO.sleep (UInt32.ofNat (s.interval / 1000000))
    s.quiet.pace

/-- Carries out an invocation. -/
def Invocation.carryOut (files : Files) : Invocation → IO Outcome
  | .run request => do
    match Session.start ample files request with
    | none => return .breakdown
    | some (.error outcome) => return outcome
    | some (.ok session) => session.pace
  | invocation => return (invocation.outcome? ample files).getD .breakdown

/-- Prints what an outcome has to say. -/
def Outcome.print (o : Outcome) : IO Unit := do
  IO.print o.output
  if let some error := o.error then
    IO.eprintln error
  if let some cause := o.cause then
    IO.eprintln ("\nCaused by:\n    " ++ cause)

end Cutscene.CommandLine

/-- Carries out a command line. -/
def main (words : List String) : IO UInt32 := do
  let outcome ← match Cutscene.CommandLine.Invocation.of? words with
    | none => do
      IO.eprint Cutscene.CommandLine.usage
      pure Cutscene.CommandLine.Outcome.misuse
    | some invocation => do
      invocation.carryOut (← Cutscene.CommandLine.readTexts invocation.paths)
  outcome.print
  return UInt32.ofNat outcome.exit
