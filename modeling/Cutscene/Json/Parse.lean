import Cutscene.Json.Basic
import Cutscene.Number.Decimal

/-!
# Reading JSON

`Json.parse?` reads the text of one value; blanks may stand around it, nothing else. Numbers with
a fraction or an exponent are scaled from the first digits that fit 64 bits: the significand is
multiplied or divided by a power of ten once it is a floating-point number.
-/

namespace Cutscene.Json

/-- Passes the blanks that JSON knows. -/
def skipBlanks : List Char → List Char
  | c :: rest =>
    if c = ' ' ∨ c = '\n' ∨ c = '\t' ∨ c = '\r' then skipBlanks rest else c :: rest
  | [] => []

/-! ### Strings -/

/-- The value of a hexadecimal digit. -/
def hexDigit? (c : Char) : Option Nat :=
  if '0' ≤ c ∧ c ≤ '9' then some (c.toNat - '0'.toNat)
  else if 'a' ≤ c ∧ c ≤ 'f' then some (c.toNat - 'a'.toNat + 10)
  else if 'A' ≤ c ∧ c ≤ 'F' then some (c.toNat - 'A'.toNat + 10)
  else none

/-- The number written with four hexadecimal digits. -/
def hexWord? (a b c d : Char) : Option Nat := do
  return 4096 * (← hexDigit? a) + 256 * (← hexDigit? b) + 16 * (← hexDigit? c) + (← hexDigit? d)

/-- What the letter after a backslash stands for, the numbered escapes aside. -/
def shortEscape? : Char → Option Char
  | '"' => some '"'
  | '\\' => some '\\'
  | '/' => some '/'
  | 'b' => some '\x08'
  | 'f' => some '\x0c'
  | 'n' => some '\n'
  | 'r' => some '\r'
  | 't' => some '\t'
  | _ => none

/-- Reads a string after its opening quote: the characters, the latest first, and the rest of the
text. A character outside the basic plane may be written as a pair of numbered escapes; half a
pair is refused. -/
def readString (seen : List Char) : List Char → Option (List Char × List Char)
  | '"' :: rest => some (seen, rest)
  | '\\' :: 'u' :: a :: b :: c :: d :: '\\' :: 'u' :: e :: f :: g :: h :: rest =>
    match hexWord? a b c d with
    | none => none
    | some n =>
      if 0xD800 ≤ n ∧ n < 0xDC00 then
        match hexWord? e f g h with
        | none => none
        | some m =>
          if 0xDC00 ≤ m ∧ m < 0xE000 then
            readString (.ofNat (0x10000 + 0x400 * (n - 0xD800) + (m - 0xDC00)) :: seen) rest
          else none
      else if 0xDC00 ≤ n ∧ n < 0xE000 then none
      else readString (.ofNat n :: seen) ('\\' :: 'u' :: e :: f :: g :: h :: rest)
  | '\\' :: 'u' :: a :: b :: c :: d :: rest =>
    match hexWord? a b c d with
    | none => none
    | some n =>
      if 0xD800 ≤ n ∧ n < 0xE000 then none else readString (.ofNat n :: seen) rest
  | '\\' :: c :: rest =>
    match shortEscape? c with
    | some c => readString (c :: seen) rest
    | none => none
  | c :: rest => if c.toNat < 0x20 then none else readString (c :: seen) rest
  | [] => none
termination_by cs => cs.length
decreasing_by all_goals simp <;> omega

/-! ### Numbers -/

/-- A power of ten up to `10 ^ 308`. -/
def powerOfTen (e : Nat) : Float := .ofBits (.ofNat (Number.double.ofDecimal 1 e))

/-- `f * 10 ^ e` in steps of powers of ten that can be held; infinite when too great. `fuel` steps
of `10 ^ -308` are tried, after which nothing is left of a value. -/
def scaleByTen (f : Float) (e : Int) : Nat → Float
  | 0 => 0
  | fuel + 1 =>
    if e.natAbs ≤ 308 then
      if 0 ≤ e then f * powerOfTen e.natAbs else f / powerOfTen e.natAbs
    else if f == 0 then f
    else if 0 ≤ e then 1 / 0
    else scaleByTen (f / powerOfTen 308) (e + 308) fuel

/-- Reads digits onto a significand while it fits 64 bits: the significand, how many digits went
into it, and the rest of the text. -/
def readSignificand (n : Nat) : List Char → Nat × Nat × List Char
  | [] => (n, 0, [])
  | c :: rest =>
    match Number.digit? c with
    | some d =>
      if 10 * n + d < UInt64.size then
        let (m, count, tail) := readSignificand (10 * n + d) rest
        (m, count + 1, tail)
      else (n, 0, c :: rest)
    | none => (n, 0, c :: rest)

/-- A whole number with its sign. What does not fit 64 bits, and zero with a minus, is held as a
floating-point number. -/
def wholeNumber (minus : Bool) (n : Nat) : Json :=
  if !minus then .int n
  else if n = 0 ∨ 9223372036854775808 < n then .float (-Number.doubleOfInt n)
  else .int (-(n : Int))

/-- `n * 10 ^ e` as a floating-point number with its sign. -/
def scaledNumber (minus : Bool) (n : Nat) (e : Int) : Json :=
  let f := scaleByTen (Number.doubleOfInt n) e 8
  .float (if minus then -f else f)

/-- Reads an exponent after its letter, as the number `n * 10 ^ e` with that exponent added. An
exponent of more than 31 bits makes every number zero or too great. -/
def readExponent (minus : Bool) (n : Nat) (e : Int) (cs : List Char) : Option (Json × List Char) :=
  let (down, body) := Number.readSign cs
  match Number.readDigits 0 body with
  | (_, 0, _) => none
  | (m, _, rest) =>
    if m < 2147483648 then
      let e := if down then e - m else e + m
      some (scaledNumber minus n (Number.clampInt32 e), rest)
    else if n = 0 ∨ down then some (.float (if minus then -0.0 else 0), rest)
    else some (.float (1 / 0), rest)

/-- Reads what may follow the digits in front of a point: the point with its digits, and an
exponent. The significand so far stands for `n * 10 ^ e`, and `whole` says that it is all of the
number. -/
def readFraction (minus whole : Bool) (n : Nat) (e : Nat) (cs : List Char) :
    Option (Json × List Char) :=
  match cs with
  | '.' :: rest =>
    let (m, count, tail) := readSignificand n rest
    let (_, dropped, tail) := Number.readDigits 0 tail
    if count + dropped = 0 then none
    else
      let e := (e : Int) - count
      match tail with
      | 'e' :: tail | 'E' :: tail => readExponent minus m e tail
      | tail => some (scaledNumber minus m e, tail)
  | 'e' :: rest | 'E' :: rest => readExponent minus n e rest
  | rest => some (if whole then wholeNumber minus n else scaledNumber minus n e, rest)

/-- Reads a number after its sign. A zero in front stands alone. -/
def readNumber (minus : Bool) : List Char → Option (Json × List Char)
  | '0' :: rest =>
    match rest with
    | c :: _ => if (Number.digit? c).isSome then none else readFraction minus true 0 0 rest
    | [] => readFraction minus true 0 0 rest
  | cs =>
    match readSignificand 0 cs with
    | (_, 0, _) => none
    | (n, _, rest) =>
      let (_, more, rest) := Number.readDigits 0 rest
      readFraction minus (more = 0) n more rest

/-! ### Values -/

/-- Takes a word off the front of a text. -/
def expect? (word : List Char) (cs : List Char) : Option (List Char) :=
  if word.isPrefixOf cs then some (cs.drop word.length) else none

mutual

/-- Reads one value, blanks before it allowed; `fuel` bounds the characters looked at. -/
def readValue (fuel : Nat) (cs : List Char) : Option (Json × List Char) :=
  match fuel with
  | 0 => none
  | fuel + 1 =>
    match skipBlanks cs with
    | 'n' :: rest => (expect? "ull".toList rest).map (.null, ·)
    | 't' :: rest => (expect? "rue".toList rest).map (.bool true, ·)
    | 'f' :: rest => (expect? "alse".toList rest).map (.bool false, ·)
    | '"' :: rest => (readString [] rest).map fun (s, rest) => (.string (.ofList s.reverse), rest)
    | '-' :: rest => readNumber true rest
    | '[' :: rest =>
      match skipBlanks rest with
      | ']' :: rest => some (.array [], rest)
      | rest => (readItems fuel rest).map fun (items, rest) => (.array items, rest)
    | '{' :: rest =>
      match skipBlanks rest with
      | '}' :: rest => some (.object [], rest)
      | rest => (readMembers fuel rest).map fun (members, rest) => (.object members, rest)
    | rest => readNumber false rest

/-- Reads the items of an array that has some, and its closing bracket. -/
def readItems (fuel : Nat) (cs : List Char) : Option (List Json × List Char) :=
  match fuel with
  | 0 => none
  | fuel + 1 =>
    match readValue fuel cs with
    | none => none
    | some (j, rest) =>
      match skipBlanks rest with
      | ']' :: rest => some ([j], rest)
      | ',' :: rest => (readItems fuel rest).map fun (items, rest) => (j :: items, rest)
      | _ => none

/-- Reads the members of an object that has some, and its closing brace. -/
def readMembers (fuel : Nat) (cs : List Char) : Option (List (String × Json) × List Char) :=
  match fuel with
  | 0 => none
  | fuel + 1 =>
    match skipBlanks cs with
    | '"' :: rest =>
      match readString [] rest with
      | none => none
      | some (key, rest) =>
        match skipBlanks rest with
        | ':' :: rest =>
          match readValue fuel rest with
          | none => none
          | some (j, rest) =>
            let member := (String.ofList key.reverse, j)
            match skipBlanks rest with
            | '}' :: rest => some ([member], rest)
            | ',' :: rest =>
              (readMembers fuel rest).map fun (members, rest) => (member :: members, rest)
            | _ => none
        | _ => none
    | _ => none

end

/-- The value that a text holds, if it holds one and nothing else. -/
def parse? (s : String) : Option Json :=
  let cs := s.toList
  match readValue (2 * cs.length + 1) cs with
  | some (j, rest) => if (skipBlanks rest).isEmpty then some j else none
  | none => none

end Cutscene.Json
