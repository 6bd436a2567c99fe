/-!
# Ranges and powers

The whole numbers that fit a number of bits, and the powers of two and ten that number formats are
made of.
-/

namespace Cutscene.Number

/-- The number fits 32 bits with a sign. -/
abbrev FitsInt32 (n : Int) : Prop := -2147483648 ≤ n ∧ n < 2147483648

/-- The number fits 64 bits with a sign. -/
abbrev FitsInt64 (n : Int) : Prop := -9223372036854775808 ≤ n ∧ n < 9223372036854775808

/-- The number nearest to `n` of those that fit 32 bits with a sign. -/
def clampInt32 (n : Int) : Int := max (-2147483648) (min 2147483647 n)

/-- The number of 32 bits with a sign, if it is one. -/
def int32? (n : Int) : Option Int32 := if FitsInt32 n then some (.ofInt n) else none

/-- A power of two. -/
def twoTo (k : Nat) : Nat := Nat.pow 2 k

/-- A power of ten. -/
def tenTo (k : Nat) : Nat := Nat.pow 10 k

end Cutscene.Number
