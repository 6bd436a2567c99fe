import Cutscene.Behaviour.Builtin
import Cutscene.Display
import Cutscene.Document.Draft
import Cutscene.Engine.Operations
import Cutscene.Json.Print
import Cutscene.Json.Structured
import Cutscene.Main
import Cutscene.Proofs.Engine.Consistent
import Cutscene.Proofs.Engine.Protocol
import Cutscene.Proofs.Number.Digits
import Cutscene.Proofs.Number.Rounding
import Cutscene.Proofs.Number.Text
import Cutscene.Proofs.Playback.Asking
import Cutscene.Proofs.Playback.Calls
import Cutscene.Proofs.Playback.Conservation
import Cutscene.Proofs.Playback.Course
import Cutscene.Proofs.Playback.Deadlines
import Cutscene.Proofs.Playback.Kinds
import Cutscene.Proofs.Playback.Level
import Cutscene.Proofs.Playback.Parting
import Cutscene.Proofs.Playback.PauseAgain
import Cutscene.Proofs.Playback.Pausing
import Cutscene.Proofs.Playback.Polling
import Cutscene.Proofs.Playback.Reached
import Cutscene.Proofs.Playback.Rounds
import Cutscene.Proofs.Playback.Skip
import Cutscene.Proofs.Playback.SkipBound
import Cutscene.Proofs.Playback.Stops
import Cutscene.Proofs.Playback.Transparent
import Cutscene.Proofs.Playback.Updates
import Cutscene.Proofs.Text.Escape
import Cutscene.Proofs.Text.Pieces
import Cutscene.Proofs.Record
import Cutscene.Proofs.Saving
import Cutscene.Proofs.Engine.Saving
import Cutscene.Proofs.Engine.Triggering
import Cutscene.Proofs.Engine.Memos
import Cutscene.Proofs.Playback.Unseen
import Cutscene.Proofs.Playback.Skipped
import Cutscene.Proofs.Engine.SkipAll
import Cutscene.Proofs.Engine.SkipQueue
import Cutscene.Proofs.Engine.Disabled
import Cutscene.Proofs.Engine.Flush
import Cutscene.Proofs.Engine.Queueing
import Cutscene.Proofs.Engine.Shelf
import Cutscene.Proofs.Engine.Preparing
import Cutscene.Proofs.Engine.NextTick
import Cutscene.Proofs.Engine.Independent
import Cutscene.Proofs.Engine.Resuming
import Cutscene.Proofs.Engine.SceneChange
import Cutscene.Proofs.Playback.Grounded
import Cutscene.Proofs.Playback.Replay
import Cutscene.Proofs.Engine.Refusal
import Cutscene.Proofs.Document.WellFormed
import Cutscene.Proofs.Condition.Reading
import Cutscene.Proofs.ParameterSet.Marks
import Cutscene.Proofs.Behaviour.SetVariable
import Cutscene.Proofs.ParameterSet.Restore
