import Cutscene.Json.Basic
import Cutscene.Number.Decimal

/-!
# Writing JSON

`Json.compact` writes a value without blanks. A floating-point number has the fewest digits that
read back, keeps `.0` when it is whole, and goes into exponent notation from `10 ^ 16` up and below
`10 ^ -5`.
-/

namespace Cutscene.Json

/-- The written form of a character inside a string. -/
def escapedChar (c : Char) : String :=
  if c = '"' then "\\\""
  else if c = '\\' then "\\\\"
  else if c = '\n' then "\\n"
  else if c = '\r' then "\\r"
  else if c = '\t' then "\\t"
  else if c = '\x08' then "\\b"
  else if c = '\x0c' then "\\f"
  else if c.toNat < 0x20 then
    "\\u00" ++ String.ofList [Nat.digitChar (c.toNat / 16), Nat.digitChar (c.toNat % 16)]
  else c.toString

/-- A text in quotes. -/
def quoted (s : String) : String :=
  s.toList.foldl (fun out c => out ++ escapedChar c) "\"" ++ "\""

/-- Zeros at the end of `m` counted into the exponent. `fuel` bounds their number. -/
def dropZeros (m : Nat) (e : Int) : Nat → Nat × Int
  | 0 => (m, e)
  | fuel + 1 => if m ≠ 0 ∧ m % 10 = 0 then dropZeros (m / 10) (e + 1) fuel else (m, e)

/-- The digits `m` with the exponent `e`: positional from `10 ^ -5` up to `10 ^ 16`, otherwise with
an exponent. -/
def decimalText (m : Nat) (e : Int) : String :=
  let digits := Nat.toDigits 10 m
  let point := (digits.length : Int) + e
  if 0 ≤ e ∧ point ≤ 16 then Number.positional m e ++ ".0"
  else if -5 < point ∧ point ≤ 16 then Number.positional m e
  else
    let power := "e" ++ toString (point - 1)
    match digits with
    | [d] => String.ofList [d] ++ power
    | d :: rest => String.ofList (d :: '.' :: rest) ++ power
    | [] => power

/-- The text of a floating-point number. -/
def floatText (x : Float) : String :=
  let bits := x.toBits.toNat
  let magnitude := bits % Number.double.signBit
  let sign := if bits / Number.double.signBit % 2 = 1 then "-" else ""
  if magnitude ≥ Number.double.infinity then "null"
  else if magnitude = 0 then sign ++ "0.0"
  else
    let (m, e) := Number.double.shortest magnitude
    let (m, e) := dropZeros m e 20
    sign ++ decimalText m e

mutual

/-- Writes a value without blanks. -/
def compact : Json → String
  | .null => "null"
  | .bool b => if b then "true" else "false"
  | .int n => toString n
  | .float x => floatText x
  | .string s => quoted s
  | .array items => "[" ++ compactItems items ++ "]"
  | .object members => "\x7b" ++ compactMembers members ++ "\x7d"

/-- Writes items with commas between them. -/
def compactItems : List Json → String
  | [] => ""
  | [j] => compact j
  | j :: rest => compact j ++ "," ++ compactItems rest

/-- Writes members with commas between them. -/
def compactMembers : List (String × Json) → String
  | [] => ""
  | [(k, v)] => quoted k ++ ":" ++ compact v
  | (k, v) :: rest => quoted k ++ ":" ++ compact v ++ "," ++ compactMembers rest

end

end Cutscene.Json
