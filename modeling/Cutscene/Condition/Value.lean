import Cutscene.Number.Decimal

/-!
# Values of conditions

What expressions compute with: texts, whole numbers of 64 bits, floating-point numbers, truth
values, tuples of values, and nothing at all.
-/

namespace Cutscene.Condition

/-- A value of an expression. -/
inductive Value where
  | string (value : String)
  | float (value : Float)
  | int (value : Int)
  | boolean (value : Bool)
  | tuple (items : List Value)
  | empty
deriving Inhabited

namespace Value

/-- The whole number, if it fits 64 bits. -/
def int64? (n : Int) : Option Value := if Number.FitsInt64 n then some (.int n) else none

/-- A number as a floating-point number. -/
def number? : Value → Option Float
  | .float x => some x
  | .int n => some (Number.doubleOfInt n)
  | _ => none

/-- The items of a tuple. -/
def items? : Value → Option (List Value)
  | .tuple items => some items
  | _ => none

/-- The text of a string. -/
def string? : Value → Option String
  | .string s => some s
  | _ => none

/-- A truth value. -/
def boolean? : Value → Option Bool
  | .boolean b => some b
  | _ => none

/-- It is neither a tuple nor nothing. -/
def isAtom : Value → Bool
  | .tuple _ | .empty => false
  | _ => true

/-- The name of a value's type. -/
def typeName : Value → String
  | .string _ => "string"
  | .float _ => "float"
  | .int _ => "int"
  | .boolean _ => "boolean"
  | .tuple _ => "tuple"
  | .empty => "empty"

/-- The values have the same type. -/
def sameType (a b : Value) : Bool := a.typeName == b.typeName

mutual

/-- Values are equal only if they have the same type; a whole number is never equal to a
floating-point number. -/
def equal : Value → Value → Bool
  | .string a, .string b => a == b
  | .float a, .float b => a == b
  | .int a, .int b => a == b
  | .boolean a, .boolean b => a == b
  | .tuple a, .tuple b => equalItems a b
  | .empty, .empty => true
  | _, _ => false

/-- Tuples are equal item by item. -/
def equalItems : List Value → List Value → Bool
  | [], [] => true
  | a :: as, b :: bs => equal a b && equalItems as bs
  | _, _ => false

end

mutual

/-- The text of a value; strings are in quotes. -/
def text : Value → String
  | .string s => "\"" ++ s ++ "\""
  | .float x => Number.doubleText x
  | .int n => toString n
  | .boolean b => if b then "true" else "false"
  | .tuple items => "(" ++ textItems items ++ ")"
  | .empty => "()"

/-- The texts of items, with commas between them. -/
def textItems : List Value → String
  | [] => ""
  | [v] => text v
  | v :: rest => text v ++ ", " ++ textItems rest

end

end Value

end Cutscene.Condition
