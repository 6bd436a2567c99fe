import Cutscene.Number.Decimal

/-!
# Rounding to a layout

`Layout.round` only depends on the quotient (`round_mul_right`), and a value that a layout has is
rounded to itself (`round_units`). So it is with decimal values: zeros at the end do not matter
(`ofDecimal_mul_tenTo`).
-/

namespace Cutscene.Number

theorem twoTo_pos (k : Nat) : 0 < twoTo k := Nat.two_pow_pos k

theorem tenTo_pos (k : Nat) : 0 < tenTo k := Nat.pow_pos (by decide)

theorem roundHalfEven_mul_right (num den : Nat) {c : Nat} (hc : 0 < c) :
    roundHalfEven (num * c) (den * c) = roundHalfEven num den := by
  have hmod : 2 * (num % den * c) = 2 * (num % den) * c := (Nat.mul_assoc ..).symm
  unfold roundHalfEven
  dsimp only
  rw [Nat.mul_div_mul_right _ _ hc, Nat.mul_mod_mul_right, hmod]
  simp only [Nat.mul_lt_mul_right hc]

/-- What is a whole number is rounded to it. -/
theorem roundHalfEven_mul_self (n : Nat) {c : Nat} (hc : 0 < c) : roundHalfEven (n * c) c = n := by
  unfold roundHalfEven
  dsimp only
  rw [Nat.mul_div_cancel _ hc, Nat.mul_mod_left, Nat.mul_zero, if_pos hc]

namespace Layout

variable (l : Layout)

/-- Only the quotient matters. -/
theorem round_mul_right (num den : Nat) {c : Nat} (hc : 0 < c) :
    l.round (num * c) (den * c) = l.round num den := by
  have hsteps : num * c * twoTo l.scale = num * twoTo l.scale * c := Nat.mul_right_comm ..
  have hden : ∀ k, den * c * twoTo k = den * twoTo k * c := fun k => Nat.mul_right_comm ..
  unfold round
  dsimp only
  rw [hsteps, Nat.mul_div_mul_right _ _ hc, hden, roundHalfEven_mul_right _ _ hc]

/-- A number of steps is rounded to the magnitude that its leading bit tells. -/
theorem round_steps (n : Nat) (shift : Nat) (hshift : (n * twoTo shift).log2 - l.fraction = shift) :
    l.round (n * twoTo shift) (twoTo l.scale) = min l.infinity (shift * twoTo l.fraction + n) := by
  have hsteps : n * twoTo shift * twoTo l.scale = n * (twoTo l.scale * twoTo shift) := by
    rw [Nat.mul_assoc, Nat.mul_comm (twoTo shift)]
  unfold round
  dsimp only
  rw [Nat.mul_div_cancel _ (twoTo_pos _), hshift, hsteps,
    roundHalfEven_mul_self _ (Nat.mul_pos (twoTo_pos _) (twoTo_pos _))]

/-- A finite value is rounded to itself. -/
theorem round_units {magnitude : Nat} (h : magnitude < l.infinity) :
    l.round (l.units magnitude) (twoTo l.scale) = magnitude := by
  have hsplit := Nat.div_add_mod magnitude (twoTo l.fraction)
  have hlt : magnitude % twoTo l.fraction < twoTo l.fraction := Nat.mod_lt _ (twoTo_pos _)
  unfold units
  dsimp only
  generalize magnitude / twoTo l.fraction = e at hsplit ⊢
  generalize magnitude % twoTo l.fraction = f at hsplit hlt ⊢
  cases e with
  | zero =>
    -- Without an exponent the fraction is all there is.
    have hshift : (f * twoTo 0).log2 - l.fraction = 0 := by
      rw [show twoTo 0 = 1 from rfl, Nat.mul_one]
      by_cases hf : f = 0
      · rw [hf, Nat.log2_zero, Nat.zero_sub]
      · have hlog : f.log2 < l.fraction := (Nat.log2_lt hf).mpr hlt
        omega
    have hround := l.round_steps f 0 hshift
    rw [show twoTo 0 = 1 from rfl, Nat.mul_one, Nat.zero_mul, Nat.zero_add] at hround
    rw [if_pos rfl, hround]
    omega
  | succ e =>
    -- The leading bit that is not stored stands right above the fraction.
    have hshift : ((twoTo l.fraction + f) * twoTo e).log2 - l.fraction = e := by
      have hlog : ((twoTo l.fraction + f) * twoTo e).log2 = l.fraction + e := by
        have hpow : 2 ^ (l.fraction + e) = twoTo l.fraction * twoTo e := Nat.pow_add ..
        have htop : 2 ^ (l.fraction + e + 1) = twoTo l.fraction * 2 * twoTo e := by
          rw [Nat.pow_succ, hpow, Nat.mul_right_comm]
        rw [Nat.log2_eq_iff (Nat.mul_ne_zero (by omega) (Nat.pos_iff_ne_zero.mp (twoTo_pos e))),
          hpow, htop]
        exact ⟨Nat.mul_le_mul_right _ (Nat.le_add_right ..),
          Nat.mul_lt_mul_of_pos_right (by omega) (twoTo_pos e)⟩
      omega
    rw [if_neg (Nat.succ_ne_zero e), Nat.add_sub_cancel, l.round_steps _ e hshift]
    have hmagnitude : e * twoTo l.fraction + (twoTo l.fraction + f) = magnitude := by
      rw [← hsplit, Nat.mul_add, Nat.mul_comm]
      omega
    rw [hmagnitude]
    omega

/-- Quotients that are the same are rounded to the same magnitude. -/
theorem round_congr {num den num' den' : Nat} (hden : 0 < den) (hden' : 0 < den')
    (h : num * den' = num' * den) : l.round num den = l.round num' den' := by
  rw [← l.round_mul_right num den hden', h, Nat.mul_comm den den', l.round_mul_right _ _ hden]

/-! ### Decimal values -/

/-- Where no answer is known beforehand the quotient is rounded. -/
theorem ofDecimal_eq_round {m : Nat} (hm : m ≠ 0) {e : Int} (hlow : -400 ≤ e) (hhigh : e ≤ 400) :
    l.ofDecimal m e = l.round (m * tenTo e.toNat) (tenTo (-e).toNat) := by
  unfold ofDecimal
  rw [if_neg hm, if_neg (by omega), if_neg (by omega)]
  cases e with
  | ofNat k =>
    have hneg : (-Int.ofNat k).toNat = 0 := by
      simp
    rw [hneg]
    rfl
  | negSucc k =>
    have hnone : m * tenTo 0 = m := Nat.mul_one m
    change _ = l.round (m * tenTo 0) _
    rw [hnone]
    rfl

/-- Zeros at the end do not matter. -/
theorem ofDecimal_mul_tenTo {m : Nat} (hm : m ≠ 0) (j : Nat) {e : Int} (hlow : -400 ≤ e)
    (hhigh : e + j ≤ 400) : l.ofDecimal (m * tenTo j) e = l.ofDecimal m (e + j) := by
  have hpow : ∀ a b, tenTo (a + b) = tenTo a * tenTo b := fun a b => Nat.pow_add ..
  have hmj : m * tenTo j ≠ 0 := Nat.mul_ne_zero hm (Nat.pos_iff_ne_zero.mp (tenTo_pos j))
  have hexp : j + e.toNat + (-(e + j)).toNat = (e + j).toNat + (-e).toNat := by omega
  rw [l.ofDecimal_eq_round hmj hlow (by omega), l.ofDecimal_eq_round hm (by omega) hhigh]
  refine l.round_congr (tenTo_pos _) (tenTo_pos _) ?_
  rw [Nat.mul_assoc m, ← hpow, Nat.mul_assoc m, ← hpow, Nat.mul_assoc m, ← hpow, hexp]

/-- A decimal value that is rounded to a finite magnitude has not been taken for infinity. -/
theorem le_of_ofDecimal {m : Nat} {e : Int} {magnitude : Nat} (h : l.ofDecimal m e = magnitude)
    (hpos : magnitude ≠ 0) (hfin : magnitude < l.infinity) : m ≠ 0 ∧ e ≤ 400 := by
  unfold ofDecimal at h
  have hm : m ≠ 0 := by
    intro hm
    rw [if_pos hm] at h
    exact hpos h.symm
  refine ⟨hm, Int.not_lt.mp fun hhigh => ?_⟩
  rw [if_neg hm, if_pos hhigh] at h
  omega

end Layout

end Cutscene.Number
