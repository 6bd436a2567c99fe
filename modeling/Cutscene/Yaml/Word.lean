import Cutscene.Json.Basic
import Cutscene.Number.Decimal
import Cutscene.Yaml.Scalar

/-!
# Words with a meaning

A plain scalar may be nothing, a truth value or a number; every other is a text.
-/

namespace Cutscene.Yaml

/-- The word means that there is nothing. -/
def isNullWord (word : String) : Bool := ["null", "Null", "NULL", "~"].contains word

/-- The truth value of a word. -/
def truth? (word : String) : Option Bool :=
  if ["true", "True", "TRUE"].contains word then some true
  else if ["false", "False", "FALSE"].contains word then some false
  else none

/-- The number in the digits of a radix, of which there must be some. -/
def digits? (radix : Nat) (cs : List Char) : Option Nat :=
  if cs.isEmpty then none
  else cs.foldlM (fun n c => (hexDigit? c).bind fun d =>
    if d < radix then some (radix * n + d) else none) 0

/-- The natural number after a mark for its radix. -/
def radixNumber? : List Char → Option Nat
  | '0' :: 'x' :: cs => digits? 16 cs
  | '0' :: 'o' :: cs => digits? 8 cs
  | '0' :: 'b' :: cs => digits? 2 cs
  | _ => none

/-- Digits that start with a zero are no number in ten digits. -/
def hasLeadingZero (cs : List Char) : Bool :=
  let cs := match cs with
    | '-' :: cs | '+' :: cs => cs
    | cs => cs
  match cs with
  | '0' :: d :: rest => (d :: rest).all Char.isDigit
  | _ => false

/-- The natural number that a word without a sign stands for. -/
def unsigned? (cs : List Char) : Option Nat :=
  (radixNumber? cs).or (if hasLeadingZero cs then none else digits? 10 cs)

/-- The natural number that a word stands for, perhaps with a plus. -/
def natural? (word : String) : Option Nat :=
  match word.toList with
  | '+' :: cs => unsigned? cs
  | cs => unsigned? cs

/-- The whole number that a word stands for. -/
def whole? (word : String) : Option Int :=
  match word.toList with
  | '+' :: cs => (unsigned? cs).map fun n => (n : Int)
  | '-' :: cs => (unsigned? cs).map fun n => -(n : Int)
  | cs => (unsigned? cs).map fun n => (n : Int)

/-- The number that a word stands for. -/
def double? (word : String) : Option Float :=
  let unmarked? : Option String := match word.toList with
    | '+' :: '+' :: _ | '+' :: '-' :: _ => none
    | '+' :: cs => some (.ofList cs)
    | _ => some word
  unmarked?.bind fun body =>
    if [".inf", ".Inf", ".INF"].contains body then Number.readDouble? "inf"
    else if ["-.inf", "-.Inf", "-.INF"].contains word then Number.readDouble? "-inf"
    else if [".nan", ".NaN", ".NAN"].contains word then Number.readDouble? "nan"
    else match Number.readDouble? body with
      | some x => if x.isFinite then some x else none
      | none => none

/-- A number as JSON, which has none but the finite ones. -/
def jsonOfDouble (x : Float) : Json := if x.isFinite then .float x else .null

/-- A whole number as JSON, if it is one of 64 bits. -/
def jsonOfWhole? (n : Int) : Option Json :=
  if Number.FitsInt64 n ∨ (0 ≤ n ∧ n < UInt64.size) then some (.int n) else none

/-- The JSON value of a plain scalar. Whole numbers of 128 bits that do not fit 64 have none. -/
def jsonOfWord? (word : String) : Option Json :=
  if word.isEmpty || isNullWord word then some .null
  else match truth? word with
    | some b => some (.bool b)
    | none =>
      let unlikeWhole : Json :=
        if hasLeadingZero word.toList then .string word
        else match double? word with
          | some x => jsonOfDouble x
          | none => .string word
      match whole? word with
      | none => some unlikeWhole
      | some n =>
        if -(Number.twoTo 127 : Int) ≤ n ∧ n < Number.twoTo 128 then jsonOfWhole? n
        else some unlikeWhole

end Cutscene.Yaml
