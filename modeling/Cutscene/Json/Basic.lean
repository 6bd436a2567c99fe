import Cutscene.Number.Range

/-!
# JSON values

Whole numbers that fit 64 bits, with or without a sign, are kept apart from floating-point
numbers. An object is the list of its members; `Json.normal` is the form in which every key occurs
once, with the value written last, and keys ascend.
-/

namespace Cutscene

/-- A JSON value. -/
inductive Json where
  | null
  | bool (value : Bool)
  /-- A whole number from `-2 ^ 63` to `2 ^ 64 - 1`. -/
  | int (value : Int)
  /-- Any other number. An infinite one stands for a number too great to be held. -/
  | float (value : Float)
  | string (value : String)
  | array (items : List Json)
  | object (members : List (String × Json))
deriving Inhabited

namespace Json

/-! ### Objects -/

/-- Puts a member into members whose keys ascend, in the place of one with the same key. -/
def insertMember (key : String) (value : Json) : List (String × Json) → List (String × Json)
  | [] => [(key, value)]
  | (k, v) :: rest =>
    if key = k then (key, value) :: rest
    else if key < k then (key, value) :: (k, v) :: rest
    else (k, v) :: insertMember key value rest

mutual

/-- The value with the members of each object sorted by key, the last of equal keys kept. -/
def normal : Json → Json
  | .array items => .array (normalItems items)
  | .object members => .object (normalMembers [] members)
  | j => j

/-- `normal` on each item. -/
def normalItems : List Json → List Json
  | [] => []
  | j :: rest => normal j :: normalItems rest

/-- Puts members one after the other into sorted ones. -/
def normalMembers (sorted : List (String × Json)) : List (String × Json) → List (String × Json)
  | [] => sorted
  | (k, v) :: rest => normalMembers (insertMember k (normal v) sorted) rest

end

mutual

/-- How deep arrays and objects are nested in a value. -/
def depth : Json → Nat
  | .array items => depthItems items + 1
  | .object members => depthMembers members + 1
  | _ => 0

/-- The greatest depth of the items. -/
def depthItems : List Json → Nat
  | [] => 0
  | j :: rest => max (depth j) (depthItems rest)

/-- The greatest depth of the members' values. -/
def depthMembers : List (String × Json) → Nat
  | [] => 0
  | (_, v) :: rest => max (depth v) (depthMembers rest)

end

mutual

/-- Every number in the value could be held. -/
def isFinite : Json → Bool
  | .float x => x.isFinite
  | .array items => isFiniteItems items
  | .object members => isFiniteMembers members
  | _ => true

/-- `isFinite` for each item. -/
def isFiniteItems : List Json → Bool
  | [] => true
  | j :: rest => isFinite j && isFiniteItems rest

/-- `isFinite` for each member's value. -/
def isFiniteMembers : List (String × Json) → Bool
  | [] => true
  | (_, v) :: rest => isFinite v && isFiniteMembers rest

end

/-! ### Readings -/

/-- The member with a key; other values than objects have none. -/
def get? (j : Json) (key : String) : Option Json :=
  match j with
  | .object members => members.lookup key
  | _ => none

/-- The text of a string. -/
def string? : Json → Option String
  | .string s => some s
  | _ => none

/-- The value of a truth value. -/
def bool? : Json → Option Bool
  | .bool b => some b
  | _ => none

/-- A whole number from `-2 ^ 63` to `2 ^ 63 - 1`. -/
def int64? : Json → Option Int
  | .int n => if Number.FitsInt64 n then some n else none
  | _ => none

/-- A whole number that is not negative. -/
def nat? : Json → Option Nat
  | .int (.ofNat n) => some n
  | _ => none

/-- The items of an array. -/
def items? : Json → Option (List Json)
  | .array items => some items
  | _ => none

end Json

end Cutscene
