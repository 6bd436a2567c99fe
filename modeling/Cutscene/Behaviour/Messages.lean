import Cutscene.Behaviour
import Cutscene.Behaviour.Params

/-!
# Comments and messages

Nodes that only tell the log something.
-/

namespace Cutscene

/-- A note in the graph. -/
structure Comment where
  text : String

namespace Comment

/-- Any params will do. -/
def prepare (params : Json) : Except ParamError Comment :=
  .ok ⟨(Params.string? params "text").getD ""⟩

/-- Passing a comment leaves it in the log. -/
def run (vars : Variables) (c : Comment) : Outcome Comment :=
  { behaviour := c, vars, notices := [.commented c.text] }

end Comment

/-- A message for the log, which may contain marks for parameters. -/
structure Message where
  text : String
  /-- A parameter that holds the message instead. -/
  binding : Option Int32
  /-- The message with the marks filled in. -/
  resolved : String
  level : Level

namespace Message

/-- There has to be a message, or a parameter for it. -/
def validate (params : Json) : Except ParamError Unit :=
  if (params.get? "message").isNone && (Params.binding? params "message").isNone then
    .error (.missing "message")
  else .ok ()

/-- The levels that a message can have. -/
def level? : String → Option Level
  | "debug" => some .debug
  | "info" => some .info
  | "warn" => some .warn
  | _ => none

/-- A message without text is empty. -/
def prepare (params : Json) : Except ParamError Message :=
  let text := (Params.string? params "message").getD ""
  let word := (Params.string? params "level").getD "info"
  match level? word with
  | none => .error (.unknownLevel word)
  | some level => .ok { text, binding := Params.binding? params "message", resolved := text, level }

/-- Fills in the marks. -/
def assign (parameters : ParameterSet) (m : Message) : Message :=
  { m with resolved := parameters.fill (parameters.assign (·.string?) m.binding m.text) }

/-- Puts the message into the log. -/
def run (vars : Variables) (m : Message) : Outcome Message :=
  { behaviour := m, vars, notices := [.said m.level m.resolved] }

end Message

end Cutscene
