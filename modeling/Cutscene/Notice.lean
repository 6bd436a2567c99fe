/-!
# Notices

What the engine tells the host's log: the causes are constructors, and `Notice.level` and
`Notice.message` give each its line.
-/

namespace Cutscene

/-- How serious a line of the log is. -/
inductive Level where
  | debug
  | info
  | warn
  | error
deriving DecidableEq, Repr

/-- The word for a level. -/
def Level.word : Level → String
  | .debug => "debug"
  | .info => "info"
  | .warn => "warn"
  | .error => "error"

/-- Something worth a line in the log. -/
inductive Notice where
  /-- A node has a message for the log. -/
  | said (level : Level) (text : String)
  /-- A comment node was passed. -/
  | commented (text : String)
  | parameterKindMismatch
  | parameterUnknown
  | entryMalformed
  | entryWithoutId
  | entryUnknown
  | recordWithoutGraph
  | recordWithExtraFields
  | conditionFailed
  | addendNotNumeric
  | resumedWhileRunning
  | resumePointOutOfRange
  | unregistered
  | hopLimitExceeded
  | outputOutOfRange
  | graphDisabled
  | overrideNotApplied
  | cannotStart
  | cannotResume
  | cannotSkip
  | budgetExhausted
  | nodeNotPrepared
  | nodeKindUnknown
deriving DecidableEq, Repr

namespace Notice

/-- How serious a notice is. -/
def level : Notice → Level
  | .said level _ => level
  | .commented _ => .debug
  | .budgetExhausted => .error
  | _ => .warn

/-- The line that a notice puts into the log. -/
def message : Notice → String
  | .said _ text => text
  | .commented _ => "Comment"
  | .parameterKindMismatch => "Parameter kind mismatch, value ignored"
  | .parameterUnknown => "No parameter with this id"
  | .entryMalformed => "Malformed parameter entry"
  | .entryWithoutId => "Parameter entry has no numeric id"
  | .entryUnknown => "Snapshot names an unknown parameter"
  | .recordWithoutGraph => "Save record has no graph id, ignored"
  | .recordWithExtraFields => "Save record has extra fields, ignored them"
  | .conditionFailed => "Condition failed to evaluate, treated as false"
  | .addendNotNumeric => "Cannot add to a non-numeric variable"
  | .resumedWhileRunning => "Resuming a running list, killing the current run"
  | .resumePointOutOfRange => "Resume index out of range, dropped"
  | .unregistered => "List is no longer registered, halting"
  | .hopLimitExceeded => "Skip exceeded its hop limit, terminating looping graph"
  | .outputOutOfRange => "Output index out of range, stopping branch"
  | .graphDisabled => "Graph is disabled, trigger ignored"
  | .overrideNotApplied => "Parameter override not applied"
  | .cannotStart => "Cannot start graph"
  | .cannotResume => "Cannot resume graph"
  | .cannotSkip => "Cannot skip queued list"
  | .budgetExhausted => "Command budget exhausted, dropping the rest"
  | .nodeNotPrepared => "Node failed to prepare, passing over it"
  | .nodeKindUnknown => "No definition for node kind, passing over it"

end Notice

end Cutscene
