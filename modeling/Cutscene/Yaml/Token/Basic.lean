/-!
# YAML tokens

The words and brackets of a YAML text. Indentation has become brackets: `blockSequence` and
`blockMapping` open, `blockEnd` closes.
-/

namespace Cutscene.Yaml

/-- How a scalar is written. -/
inductive Style where
  | plain
  | quoted
  | literal
  | folded
deriving DecidableEq, Repr

/-- A word or bracket of a YAML text. -/
inductive Token where
  | version (major minor : Nat)
  /-- Tags that begin with the handle stand for tags that begin with the stem. -/
  | abbreviation (handle stem : String)
  | documentStart
  | documentEnd
  | blockSequence
  | blockMapping
  | blockEnd
  | flowSequence
  | flowSequenceEnd
  | flowMapping
  | flowMappingEnd
  /-- The dash before an item. -/
  | item
  | comma
  | key
  | value
  | alias (name : String)
  | anchor (name : String)
  | tag (handle rest : String)
  | scalar (style : Style) (text : String)
deriving DecidableEq, Repr

end Cutscene.Yaml
