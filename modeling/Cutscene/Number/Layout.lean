import Cutscene.Number.Range

/-!
# Binary floating-point layouts

A `Layout` says how many fraction and exponent bits a binary interchange format stores. The
magnitudes of a format, read as natural numbers, are ordered as the values they stand for, so a
value is handled here as the natural number `Layout.units` of smallest positive steps it holds:
`Layout.units` reads a magnitude exactly, `Layout.round` takes a quotient to the nearest
magnitude, halves to the even one, and `Layout.recast` moves a value from one format to another.
-/

namespace Cutscene.Number

/-- `num / den` to the nearest natural number, a half to the even neighbour. -/
def roundHalfEven (num den : Nat) : Nat :=
  let q := num / den
  let r := num % den
  if 2 * r < den then q
  else if den < 2 * r then q + 1
  else q + q % 2

/-- The shape of a binary interchange format. -/
structure Layout where
  /-- Bits of the fraction field. -/
  fraction : Nat
  /-- Bits of the exponent field. -/
  exponent : Nat
deriving DecidableEq, Repr

/-- The 32-bit format. -/
def single : Layout := ⟨23, 8⟩

/-- The 64-bit format. -/
def double : Layout := ⟨52, 11⟩

namespace Layout

/-- The weight of the sign bit; every magnitude lies below it. -/
def signBit (l : Layout) : Nat := twoTo (l.fraction + l.exponent)

/-- The magnitude of infinity. Greater magnitudes are not numbers. -/
def infinity (l : Layout) : Nat := (twoTo l.exponent - 1) * twoTo l.fraction

/-- The magnitude that stands for every result that is not a number. -/
def nan (l : Layout) : Nat := l.infinity + twoTo (l.fraction - 1)

/-- One is `2 ^ scale` smallest positive steps. -/
def scale (l : Layout) : Nat := twoTo (l.exponent - 1) - 2 + l.fraction

/-- The value of a finite magnitude, counted in smallest positive steps. -/
def units (l : Layout) (magnitude : Nat) : Nat :=
  let e := magnitude / twoTo l.fraction
  let f := magnitude % twoTo l.fraction
  if e = 0 then f else (twoTo l.fraction + f) * twoTo (e - 1)

/-- The magnitude nearest to `num / den`, halves to the even significand; infinity beyond the
greatest finite value. -/
def round (l : Layout) (num den : Nat) : Nat :=
  let steps := num * twoTo l.scale
  let shift := (steps / den).log2 - l.fraction
  min l.infinity (shift * twoTo l.fraction + roundHalfEven steps (den * twoTo shift))

/-- The value with the bits `bits` of `l`, as the nearest bits of `target`. -/
def recast (l target : Layout) (bits : Nat) : Nat :=
  let magnitude := bits % l.signBit
  let sign := if bits / l.signBit % 2 = 1 then target.signBit else 0
  if l.infinity < magnitude then target.nan
  else if magnitude = l.infinity then sign + target.infinity
  else sign + target.round (l.units magnitude) (twoTo l.scale)

/-- The bits of `l` nearest to an integer. -/
def ofInt (l : Layout) (n : Int) : Nat :=
  (if n < 0 then l.signBit else 0) + l.round n.natAbs 1

end Layout

/-- A single as a double. No value is changed. -/
def widen (x : Float32) : Float :=
  .ofBits (.ofNat (single.recast double x.toBits.toNat))

/-- A double as the nearest single. -/
def narrow (x : Float) : Float32 :=
  .ofBits (.ofNat (double.recast single x.toBits.toNat))

/-- The single nearest to an integer. -/
def singleOfInt (n : Int) : Float32 :=
  .ofBits (.ofNat (single.ofInt n))

/-- The double nearest to an integer. -/
def doubleOfInt (n : Int) : Float :=
  .ofBits (.ofNat (double.ofInt n))

end Cutscene.Number
