import Cutscene.Number.Decimal
import Cutscene.Text.Pieces

/-!
# Arguments

What the words of a command line ask for. `Invocation.of` reads them from the left and stops at the
first mistake, or at the first word that asks for help.
-/

namespace Cutscene.CommandLine

/-- How to run a graph. -/
structure RunRequest where
  files : List String
  graph : String
  config : Option String := none
  /-- Skip all queued playbacks after so many seconds. -/
  skipAfter : Option Float32 := none
  /-- Pause the graph after so many seconds. -/
  pauseAfter : Option Float32 := none
  /-- Kill what still runs after so many seconds. -/
  maxSeconds : Float32 := 300
  /-- The address of a server to save to. -/
  server : Option String := none
  slot : String := "quicksave"

/-- What a command line asks for. -/
inductive Invocation where
  | run (request : RunRequest)
  /-- Load and validate files. -/
  | check (files : List String)
  | help
  | version

/-- Why the words are not read to their end. -/
inductive Stop where
  | mistake
  | help

/-- The options of a run read so far, and the files. -/
structure Reading where
  files : List String := []
  graph : Option String := none
  config : Option String := none
  skipAfter : Option Float32 := none
  pauseAfter : Option Float32 := none
  maxSeconds : Option Float32 := none
  server : Option String := none
  slot : Option String := none

/-- Sets an option that has not been set. -/
def once {α : Type} (old : Option α) (new : Option α) : Except Stop (Option α) :=
  match old, new with
  | none, some value => .ok (some value)
  | _, _ => .error .mistake

/-- A path must not be empty. -/
def path? (text : String) : Option String := if text.isEmpty then none else some text

namespace Reading

/-- Takes over the value of an option of a run. -/
def withOption (r : Reading) (name value : String) : Except Stop Reading := do
  match name with
  | "graph" => return { r with graph := ← once r.graph (some value) }
  | "config" => return { r with config := ← once r.config (path? value) }
  | "skip-after" => return { r with skipAfter := ← once r.skipAfter (Number.readSingle? value) }
  | "pause-after" => return { r with pauseAfter := ← once r.pauseAfter (Number.readSingle? value) }
  | "max-seconds" => return { r with maxSeconds := ← once r.maxSeconds (Number.readSingle? value) }
  | "redis" => return { r with server := ← once r.server (some value) }
  | "slot" => return { r with slot := ← once r.slot (some value) }
  | _ => .error .mistake

/-- Takes over a file. -/
def withFile (r : Reading) (path : String) : Except Stop Reading :=
  if path.isEmpty then .error .mistake else .ok { r with files := r.files ++ [path] }

/-- Takes over files. -/
def withFiles (r : Reading) (paths : List String) : Except Stop Reading := paths.foldlM withFile r

end Reading

/-- The word is an option, or several in one letter each. -/
def isOption (word : String) : Bool := word.toList.head? == some '-' && word != "-"

/-- Asks for help in one letter. -/
def isHelpLetter (word : String) : Bool := ['-', 'h'].isPrefixOf word.toList

/-- The name of a long option, and its value if that is part of the word. -/
def longOption? (word : String) : Option (String × Option String) :=
  match word.toList with
  | '-' :: '-' :: cs =>
    match Text.cutOnce '=' cs with
    | some (name, value) => some (.ofList name, some (.ofList value))
    | none => some (.ofList cs, none)
  | _ => none

/-- Reads the words after a command; `allowed` names its options. -/
def readWords (allowed : List String) (r : Reading) : List String → Except Stop Reading
  | [] => .ok r
  | word :: rest =>
    if word = "--" then r.withFiles rest
    else if !isOption word then do
      let r ← r.withFile word
      readWords allowed r rest
    else
      match longOption? word with
      | none => .error (if isHelpLetter word then .help else .mistake)
      | some ("help", none) => .error .help
      | some (name, value?) =>
        if !allowed.contains name then .error .mistake
        else
          match value?, rest with
          | some value, rest => do
            let r ← r.withOption name value
            readWords allowed r rest
          | none, value :: rest =>
            if isOption value then .error .mistake
            else do
              let r ← r.withOption name value
              readWords allowed r rest
          | none, [] => .error .mistake

namespace Invocation

/-- The run that has been read, if nothing is missing. -/
def ofReading (r : Reading) : Except Stop Invocation :=
  match r.graph with
  | some graph =>
    if r.files.isEmpty then .error .mistake
    else .ok (.run {
      files := r.files, graph, config := r.config, skipAfter := r.skipAfter,
      pauseAfter := r.pauseAfter, maxSeconds := r.maxSeconds.getD 300, server := r.server,
      slot := r.slot.getD "quicksave" })
  | none => .error .mistake

/-- The options of a run. -/
def runOptions : List String :=
  ["graph", "config", "skip-after", "pause-after", "max-seconds", "redis", "slot"]

/-- The invocation that the words of a command line stand for, if they have no mistake. -/
def of? (words : List String) : Option Invocation :=
  let read : Except Stop Invocation := match words with
    | "run" :: rest => (readWords runOptions {} rest).bind ofReading
    | "check" :: rest => (readWords [] {} rest).bind fun r =>
      if r.files.isEmpty then .error .mistake else .ok (.check r.files)
    | ["help"] | ["help", "run"] | ["help", "check"] | ["help", "help"] => .error .help
    | "--help" :: _ => .error .help
    | "--version" :: _ => .ok .version
    | word :: _ =>
      if isHelpLetter word then .error .help
      else if ['-', 'V'].isPrefixOf word.toList then .ok .version
      else .error .mistake
    | [] => .error .mistake
  match read with
  | .ok invocation => some invocation
  | .error .help => some .help
  | .error .mistake => none

end Invocation

end Cutscene.CommandLine
