import Cutscene.Number.Layout

/-!
# Singles and their bits

A single is determined by its bits: they unpack to a value that packs to the same bits
(`pack_unpack`), so `ofBits_toBits` gives the single back. Of the bits beyond infinity a single has
one pattern only (`toBits_eq_nan`).
-/

namespace Cutscene.Number

open Float.Model Float.Model.UnpackedFloat

variable {b : BitVec Format.binary32.numBits}

/-! ### The fields -/

theorem toNat_unpackMantissa (b : BitVec Format.binary32.numBits) :
    (unpackMantissa b).toNat = b.toNat % 8388608 := BitVec.extractLsb_toNat 22 0 b

theorem toNat_unpackExponent (b : BitVec Format.binary32.numBits) :
    (unpackExponent b).toNat = b.toNat / 8388608 % 256 := by
  refine (BitVec.extractLsb_toNat 30 23 b).trans ?_
  rw [Nat.shiftRight_eq_div_pow]

theorem toNat_unpackSign (b : BitVec Format.binary32.numBits) :
    (unpackSign b).toNat = b.toNat / 2147483648 := by
  have hb : b.toNat < 4294967296 := b.isLt
  have hsign : b.toNat / 2147483648 < 2 := by omega
  refine (BitVec.extractLsb_toNat 31 31 b).trans ?_
  rw [Nat.shiftRight_eq_div_pow]
  exact Nat.mod_eq_of_lt hsign

theorem toBitVec_ofBitVec (s : BitVec 1) : (Sign.ofBitVec s).toBitVec = s := by
  rcases BitVec.eq_zero_or_eq_one s with rfl | rfl <;> rfl

theorem toNat_packComponents (s : Sign) (e : BitVec Format.binary32.exponentBits)
    (m : BitVec Format.binary32.mantissaBitsWithoutImplicit) :
    (packComponents .binary32 s e m).toNat =
      s.toBitVec.toNat * 2147483648 + e.toNat * 8388608 + m.toNat := by
  rw [packComponents, BitVec.toNat_append, BitVec.toNat_append,
    ← Nat.shiftLeft_add_eq_or_of_lt e.isLt, ← Nat.shiftLeft_add_eq_or_of_lt m.isLt,
    Nat.shiftLeft_eq, Nat.shiftLeft_eq]
  change (_ * 256 + _) * 8388608 + _ = _
  omega

/-- The fields of bits put together are the bits. -/
theorem packComponents_unpack {e : BitVec Format.binary32.exponentBits}
    {m : BitVec Format.binary32.mantissaBitsWithoutImplicit} (he : unpackExponent b = e)
    (hm : unpackMantissa b = m) :
    packComponents .binary32 (.ofBitVec (unpackSign b)) e m = b := by
  subst he hm
  refine BitVec.eq_of_toNat_eq ?_
  rw [toNat_packComponents, toBitVec_ofBitVec, toNat_unpackSign, toNat_unpackExponent,
    toNat_unpackMantissa]
  omega

/-! ### Unpacking and packing -/

/-- A value below the least power of two of full precision. -/
theorem pack_subnormal {s : Sign} {m : Nat} {e : Int} (hpos : 0 < m) (hm : m < 8388608)
    (he : e = -149) :
    UnpackedFloat.pack .binary32 (.finite s m e hpos) =
      packComponents .binary32 s 0#8 (BitVec.ofNat 23 m) := by
  have hbiased : ¬256 ≤ (e + (127 : Nat) + (23 : Nat)).toNat + 1 := by omega
  have hlog : ¬m.log2 + 1 = 24 := by
    have hlt : m.log2 < 23 := (Nat.log2_lt (Nat.pos_iff_ne_zero.mp hpos)).mpr hm
    omega
  exact (if_neg hbiased).trans (if_neg hlog)

/-- A value of full precision. -/
theorem pack_normal {s : Sign} {m k : Nat} {e : Int} (hpos : 0 < m) (hlow : 8388608 ≤ m)
    (hhigh : m < 16777216) (he : e = k - 150) (hk : k < 255) :
    UnpackedFloat.pack .binary32 (.finite s m e hpos) =
      packComponents .binary32 s (BitVec.ofNat 8 k) (BitVec.ofNat 23 m) := by
  have hne := Nat.pos_iff_ne_zero.mp hpos
  have hlog : m.log2 + 1 = 24 := by
    have hlt : m.log2 < 24 := (Nat.log2_lt hne).mpr hhigh
    have hle : 23 ≤ m.log2 := (Nat.le_log2 hne).mpr hlow
    omega
  have hbiased : (e + (127 : Nat) + (23 : Nat)).toNat = k := by omega
  subst hbiased
  exact (if_neg (Nat.not_le.mpr (Nat.succ_lt_succ hk))).trans (if_pos hlog)

theorem unpack_subnormal (hzeros : unpackExponent b = 0#8) (hne : unpackMantissa b ≠ 0#23) :
    ∃ e hpos, e = -149 ∧ UnpackedFloat.unpack .binary32 b =
      .finite (.ofBitVec (unpackSign b)) (unpackMantissa b).toNat e hpos := by
  have hones : unpackExponent b ≠ -1#8 := by
    rw [hzeros]
    decide
  refine ⟨_, _, ?_, (if_neg hones).trans ((if_pos hzeros).trans (dif_neg hne))⟩
  rw [hzeros]
  rfl

theorem unpack_normal (hones : unpackExponent b ≠ -1#8) (hzeros : unpackExponent b ≠ 0#8) :
    ∃ e hpos, e = ((unpackExponent b).toNat : Int) - 150 ∧ UnpackedFloat.unpack .binary32 b =
      .finite (.ofBitVec (unpackSign b)) (1#1 ++ unpackMantissa b).toNat e hpos :=
  ⟨_, _, rfl, (if_neg hones).trans (if_neg hzeros)⟩

/-- The bits of a value are those that it was unpacked from. -/
theorem pack_unpack (h : Format.binary32.Valid b) :
    UnpackedFloat.pack .binary32 (UnpackedFloat.unpack .binary32 b) = b := by
  have hmantissa : (unpackMantissa b).toNat < 8388608 := (unpackMantissa b).isLt
  have hexponent : (unpackExponent b).toNat < 256 := (unpackExponent b).isLt
  by_cases hones : unpackExponent b = -1#8
  · -- All bits of the exponent are set: an infinity, or no number.
    by_cases hzero : unpackMantissa b = 0#23
    · have hunpack : UnpackedFloat.unpack .binary32 b = .infinity (.ofBitVec (unpackSign b)) :=
        (if_pos hones).trans (if_pos hzero)
      rw [hunpack]
      exact packComponents_unpack hones hzero
    · have hunpack : UnpackedFloat.unpack .binary32 b = .notANumber :=
        (if_pos hones).trans (if_neg hzero)
      rw [hunpack]
      -- Of what is no number there is one valid pattern.
      exact (h.eq_packedNaN hones hzero).symm
  · by_cases hzeros : unpackExponent b = 0#8
    · -- No bit of the exponent is set: a zero, or a subnormal number.
      by_cases hzero : unpackMantissa b = 0#23
      · have hunpack : UnpackedFloat.unpack .binary32 b = .zero (.ofBitVec (unpackSign b)) :=
          (if_neg hones).trans ((if_pos hzeros).trans (dif_pos hzero))
        rw [hunpack]
        exact packComponents_unpack hzeros hzero
      · obtain ⟨e, hpos, he, hunpack⟩ := unpack_subnormal hzeros hzero
        rw [hunpack, pack_subnormal hpos hmantissa he, BitVec.ofNat_toNat, BitVec.setWidth_eq]
        exact packComponents_unpack hzeros rfl
    · obtain ⟨e, hpos, he, hunpack⟩ := unpack_normal hones hzeros
      have htop : (unpackExponent b).toNat ≠ 255 :=
        fun hall => hones (BitVec.eq_of_toNat_eq hall)
      -- The leading bit of a normal number is not stored.
      have happend : (1#1 ++ unpackMantissa b).toNat = 8388608 + (unpackMantissa b).toNat := by
        rw [BitVec.toNat_append, ← Nat.shiftLeft_add_eq_or_of_lt hmantissa]
        rfl
      have hmod : BitVec.ofNat 23 (1#1 ++ unpackMantissa b).toNat = unpackMantissa b := by
        refine BitVec.eq_of_toNat_eq ?_
        rw [BitVec.toNat_ofNat, happend]
        exact (Nat.add_mod_left _ _).trans (Nat.mod_eq_of_lt hmantissa)
      have hbelow : (unpackExponent b).toNat < 255 := by omega
      rw [hunpack, pack_normal hpos (happend ▸ Nat.le_add_right ..) (by omega) he hbelow,
        BitVec.ofNat_toNat, BitVec.setWidth_eq]
      exact packComponents_unpack rfl hmod.symm

/-! ### Singles -/

/-- A single is what its bits stand for. -/
theorem ofBits_toBits (x : Float32) : Float32.ofBits x.toBits = x := by
  obtain ⟨bits, hvalid⟩ := x
  have hbits : Float32.Model.ofBits bits = ⟨bits, hvalid⟩ :=
    (Float32.Model.mk.injEq ..).mpr (UInt32.toBitVec_inj.mp (pack_unpack hvalid))
  exact congrArg Float32.ofModel hbits

/-- There is one single only that is no number. -/
theorem toBits_eq_nan {x : Float32}
    (h : single.infinity < x.toBits.toNat % single.signBit) : x.toBits.toNat = single.nan := by
  obtain ⟨bits, hvalid⟩ := x
  have hlarge : 2139095040 < bits.toNat % 2147483648 := h
  have hbits : bits.toBitVec = packedNaN .binary32 := by
    refine hvalid.eq_packedNaN (BitVec.eq_of_toNat_eq ?_) fun hzero => ?_
    · rw [toNat_unpackExponent]
      change bits.toNat / 8388608 % 256 = 255
      omega
    · have hmantissa := toNat_unpackMantissa bits.toBitVec
      rw [hzero] at hmantissa
      change 0 = bits.toNat % 8388608 at hmantissa
      omega
  change bits.toBitVec.toNat = _
  rw [hbits]
  rfl

end Cutscene.Number
