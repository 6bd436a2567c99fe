import Cutscene.Parameter

/-!
# Parameter sets

The parameters of one running graph, in the order of their definition. A *snapshot* is the text
`id=literal;id=literal;…` of all values; `ParameterSet.snapshot` writes it and
`ParameterSet.restore` reads it back into a set, each literal as the kind that the set has for its
id. Applying a text never changes which parameters there are, nor their kinds.
-/

namespace Cutscene

/-- The parameters of one running graph. Of several with one id only the first is ever found. -/
structure ParameterSet where
  items : List Parameter
deriving DecidableEq

namespace ParameterSet

/-- Why a value is not taken. -/
inductive Refusal where
  | unknown
  | kindMismatch
deriving DecidableEq, Repr

/-- What the log says of a value that is not taken. -/
def Refusal.notice : Refusal → Notice
  | .unknown => .parameterUnknown
  | .kindMismatch => .parameterKindMismatch

/-- The set without parameters. -/
def empty : ParameterSet := ⟨[]⟩

/-- There are no parameters. -/
def isEmpty (s : ParameterSet) : Bool := s.items.isEmpty

/-- The number of parameters. -/
def size (s : ParameterSet) : Nat := s.items.length

/-- The parameter with an id. -/
def get? (s : ParameterSet) (id : Int32) : Option Parameter := s.items.find? (·.id = id)

/-- Puts `p` in the place of the first parameter with an id. -/
def replaceFirst (id : Int32) (p : Parameter) : List Parameter → List Parameter
  | [] => []
  | q :: rest => if q.id = id then p :: rest else q :: replaceFirst id p rest

/-- Puts `p` in the place of the parameter with an id. -/
def put (s : ParameterSet) (id : Int32) (p : Parameter) : ParameterSet :=
  ⟨replaceFirst id p s.items⟩

/-- Gives the parameter with an id a value of its kind. -/
def set (s : ParameterSet) (id : Int32) (value : Parameter.Value) : Except Refusal ParameterSet :=
  match s.get? id with
  | none => .error .unknown
  | some p =>
    match p.set? value with
    | none => .error .kindMismatch
    | some p => .ok (s.put id p)

/-- The value of the parameter that a field is bound to, if there is such a binding and such a
parameter. -/
def bound? (s : ParameterSet) (binding : Option Int32) : Option Parameter.Value :=
  binding.bind fun id => (s.get? id).map (·.value)

/-- What a bound field becomes: the reading `view` of its parameter, or else what it was. -/
def assign {α : Type} (s : ParameterSet) (view : Parameter.Value → Option α)
    (binding : Option Int32) (field : α) : α :=
  ((s.bound? binding).bind view).getD field

/-- The mark in a text that stands for a parameter. -/
def token (p : Parameter) : String := "[param:" ++ toString p.id.toInt ++ "]"

/-- Puts each parameter's literal in the place of its marks, one parameter after the other. -/
def fill (s : ParameterSet) (text : String) : String :=
  s.items.foldl (fun text p => Text.replace (token p) p.value.literal text) text

/-! ### Snapshots -/

/-- The entry of one parameter. -/
def entry (p : Parameter) : String :=
  toString p.id.toInt ++ "=" ++ Text.escape p.value.literal

/-- The text of all values. -/
def snapshot (s : ParameterSet) : String := ";".intercalate (s.items.map entry)

/-- Applies one entry of a snapshot, or says why it does not apply. -/
def restoreEntry (s : ParameterSet) (cs : List Char) : Except Notice ParameterSet :=
  match Text.cutOnce '=' cs with
  | none => .error .entryMalformed
  | some (before, after) =>
    match Number.readInt32? (Text.trimChars before) with
    | none => .error .entryWithoutId
    | some id =>
      match s.get? id with
      | none => .error .entryUnknown
      | some p =>
        let value := .read p.kind (.ofList (Text.unescapeChars after))
        .ok (s.put id { p with value })

/-- Applies entries one after the other; those that do not apply leave a notice. -/
def restoreEntries (s : ParameterSet) : List (List Char) → ParameterSet × List Notice
  | [] => (s, [])
  | cs :: rest =>
    match s.restoreEntry cs with
    | .ok s => s.restoreEntries rest
    | .error notice =>
      let (s, notices) := s.restoreEntries rest
      (s, notice :: notices)

/-- Applies a snapshot, and what there is to say about entries that do not apply. -/
def restore (s : ParameterSet) (data : String) : ParameterSet × List Notice :=
  s.restoreEntries ((Text.cut ';' data.toList).filter (!·.isEmpty))

end ParameterSet

end Cutscene
