import Cutscene.Number.Layout

/-!
# Decimal text of floating-point values

`Layout.read?` reads decimal text to the nearest value. `Layout.shortest` finds the fewest digits
that read back to a magnitude, and of those the ones nearest to its value; `Layout.text` writes
them positionally, with no exponent, and no decimal point on whole numbers.
-/

namespace Cutscene.Number

/-- The value of a decimal digit. -/
def digit? (c : Char) : Option Nat :=
  if '0' ≤ c ∧ c ≤ '9' then some (c.toNat - '0'.toNat) else none

/-- Reads the leading digits of a text onto `n`: the number, how many digits there were, and the
rest of the text. -/
def readDigits (n : Nat) : List Char → Nat × Nat × List Char
  | [] => (n, 0, [])
  | c :: rest =>
    match digit? c with
    | some d =>
      let (m, count, tail) := readDigits (10 * n + d) rest
      (m, count + 1, tail)
    | none => (n, 0, c :: rest)

/-- Splits off a leading sign; `true` is minus. -/
def readSign : List Char → Bool × List Char
  | '-' :: rest => (true, rest)
  | '+' :: rest => (false, rest)
  | cs => (false, cs)

/-- An integer in decimal digits with an optional sign, if the text holds nothing else. -/
def readInt? (cs : List Char) : Option Int :=
  let (minus, body) := readSign cs
  match readDigits 0 body with
  | (_, 0, _) => none
  | (n, _, []) => some (if minus then -(n : Int) else n)
  | _ => none

/-- A natural number below `2 ^ 64` in decimal digits, with an optional plus. -/
def readWord? (cs : List Char) : Option Nat :=
  let body := match cs with
    | '+' :: rest => rest
    | cs => cs
  match readDigits 0 body with
  | (_, 0, _) => none
  | (n, _, []) => if n < UInt64.size then some n else none
  | _ => none

/-- An integer of 32 bits in decimal digits with an optional sign. -/
def readInt32? (cs : List Char) : Option Int32 :=
  (readInt? cs).bind int32?

/-- Unsigned decimal notation: digits, an optional point with digits, an optional exponent; at
least one digit before the exponent and one in it. The result is `m * 10 ^ e`, as `(m, e)`. -/
def readScientific? (cs : List Char) : Option (Nat × Int) :=
  let (whole, wholeCount, rest) := readDigits 0 cs
  let (m, fractionCount, rest) := match rest with
    | '.' :: rest => readDigits whole rest
    | rest => (whole, 0, rest)
  if wholeCount + fractionCount = 0 then none
  else match rest with
    | [] => some (m, -(fractionCount : Int))
    | c :: rest =>
      if c = 'e' ∨ c = 'E' then
        (readInt? rest).map fun e => (m, e - fractionCount)
      else none

namespace Layout

/-- The magnitude nearest to `m * 10 ^ e`. Outside the exponents that any format here can reach
the answer is known from the number of digits. -/
def ofDecimal (l : Layout) (m : Nat) (e : Int) : Nat :=
  if m = 0 then 0
  else if 400 < e then l.infinity
  else if (m.log2 : Int) < -3 * (e + 400) then 0
  else match e with
    | .ofNat k => l.round (m * tenTo k) 1
    | .negSucc k => l.round m (tenTo (k + 1))

/-- Reads decimal text to the bits of the nearest value. Infinity and the absence of a number
have names, in either case of letters. -/
def read? (l : Layout) (s : String) : Option Nat :=
  let (minus, body) := readSign s.toList
  let sign := if minus then l.signBit else 0
  let name := String.ofList (body.map Char.toLower)
  if name = "inf" ∨ name = "infinity" then some (sign + l.infinity)
  else if name = "nan" then some (sign + l.nan)
  else (readScientific? body).map fun (m, e) => sign + l.ofDecimal m e

/-- The power of ten above a positive finite magnitude: its value is at least
`10 ^ (magnitudeExponent - 1)` and below `10 ^ magnitudeExponent`. -/
def decimalExponent (l : Layout) (magnitude : Nat) : Int :=
  ((Nat.toDigits 10 (l.units magnitude * tenTo 400 / twoTo l.scale)).length : Int) - 400

/-- The neighbours of a magnitude's value among the multiples of `10 ^ e`, the nearer first. -/
def neighbours (l : Layout) (magnitude : Nat) (e : Int) : List Nat :=
  let num := l.units magnitude * tenTo (-e).toNat
  let den := twoTo l.scale * tenTo e.toNat
  let c := num / den
  if 2 * (num % den) ≤ den then [c, c + 1] else [c + 1, c]

/-- The digits that `shortest` chooses when at least `count` are written; `fuel` more counts are
tried. The exact value is the last resort. -/
def shortestFrom (l : Layout) (magnitude : Nat) (top : Int) : Nat → Nat → Nat × Int
  | 0, _ => (l.units magnitude * Nat.pow 5 l.scale, -(l.scale : Int))
  | fuel + 1, count =>
    let e := top - count
    match (l.neighbours magnitude e).find? (l.ofDecimal · e = magnitude) with
    | some c => (c, e)
    | none => l.shortestFrom magnitude top fuel (count + 1)

/-- The fewest digits `m` and the exponent `e` with `m * 10 ^ e` reading back to a positive
finite magnitude. Seventeen digits are enough for the formats here. -/
def shortest (l : Layout) (magnitude : Nat) : Nat × Int :=
  l.shortestFrom magnitude (l.decimalExponent magnitude) 17 1

end Layout

/-- Drops the zeros at the end of a fraction's digits. -/
def trimZeros (cs : List Char) : List Char :=
  (cs.reverse.dropWhile (· = '0')).reverse

/-- `m * 10 ^ e` in positional notation, without zeros at the end of a fraction. -/
def positional (m : Nat) : Int → String
  | .ofNat k => toString (m * tenTo k)
  | .negSucc k =>
    let unit := tenTo (k + 1)
    let digits := Nat.toDigits 10 (m % unit)
    let fraction := trimZeros (List.replicate (k + 1 - digits.length) '0' ++ digits)
    if fraction.isEmpty then toString (m / unit)
    else toString (m / unit) ++ "." ++ String.ofList fraction

namespace Layout

/-- The shortest text that reads back to the value with the given bits. -/
def text (l : Layout) (bits : Nat) : String :=
  let magnitude := bits % l.signBit
  let sign := if bits / l.signBit % 2 = 1 then "-" else ""
  if l.infinity < magnitude then "NaN"
  else if magnitude = l.infinity then sign ++ "inf"
  else if magnitude = 0 then sign ++ "0"
  else
    let (m, e) := l.shortest magnitude
    sign ++ positional m e

end Layout

/-- The text of a single. -/
def singleText (x : Float32) : String := single.text x.toBits.toNat

/-- The text of a double. -/
def doubleText (x : Float) : String := double.text x.toBits.toNat

/-- Reads a single. -/
def readSingle? (s : String) : Option Float32 :=
  (single.read? s).map fun bits => .ofBits (.ofNat bits)

/-- Reads a double. -/
def readDouble? (s : String) : Option Float :=
  (double.read? s).map fun bits => .ofBits (.ofNat bits)

end Cutscene.Number
