import Cutscene.Json.Print

/-!
# Node kinds

A kind of node makes behaviours from the params that a graph gives its nodes. `ParamError` lists
why params can be refused.
-/

namespace Cutscene

/-- Why params are refused. -/
inductive ParamError where
  | missing (field : String)
  | unknownLevel (word : String)
  | negativeSeconds
  | noOutputs
  | unknownCommand (word : String)
  | unknownScope (word : String)
  | unknownOperation (word : String)
  | variableTooLarge
  | variableTooSmall
  | integerOutOfRange (value : Int)
  | unsupportedValue (value : Json)
  | addendNotNumeric
  /-- The text of a condition cannot be read. -/
  | condition

/-- What is said of refused params. Of a condition the reader of conditions would have to say it. -/
def ParamError.message? : ParamError → Option String
  | .missing field => some ("Missing " ++ field)
  | .unknownLevel word => some ("Unknown log level: " ++ word)
  | .negativeSeconds => some "seconds must not be negative"
  | .noOutputs => some "outputs must be at least 1"
  | .unknownCommand word => some ("Unknown graph command: " ++ word)
  | .unknownScope word => some ("Unknown variable scope: " ++ word)
  | .unknownOperation word => some ("Unknown operation: " ++ word)
  | .variableTooLarge => some "number too large to fit in target type"
  | .variableTooSmall => some "number too small to fit in target type"
  | .integerOutOfRange value => some ("Integer out of range: " ++ toString value)
  | .unsupportedValue value => some ("Unsupported variable value: " ++ value.compact)
  | .addendNotNumeric => some "add needs a numeric value"
  | .condition => none

/-- A kind of node. -/
structure NodeKind (β : Type) where
  name : String
  /-- Judges params without making anything of them. -/
  validate : Json → Except ParamError Unit
  /-- Makes a behaviour of params. -/
  prepare : Json → Except ParamError β

end Cutscene
