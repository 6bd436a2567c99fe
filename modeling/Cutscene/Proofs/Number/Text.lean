import Cutscene.Proofs.Number.Bits
import Cutscene.Proofs.Number.Digits
import Cutscene.Proofs.Number.Rounding

/-!
# Singles as texts

The digits that `Layout.shortest` finds read back to the magnitude they were found for
(`shortestFrom_reads`), and so does what `positional` writes (`exists_readScientific?_positional`).
So every single is read back from its text: `readSingle?_singleText`.
-/

namespace Cutscene.Number

/-! ### Shortest digits -/

namespace Layout

variable (l : Layout) {magnitude : Nat}

theorem units_ne_zero (h : magnitude ≠ 0) : l.units magnitude ≠ 0 := by
  have hsplit := Nat.div_add_mod magnitude (twoTo l.fraction)
  have hpos := twoTo_pos l.fraction
  unfold units
  dsimp only
  generalize magnitude / twoTo l.fraction = e at hsplit ⊢
  generalize magnitude % twoTo l.fraction = f at hsplit ⊢
  split
  · rename_i he
    rw [he, Nat.mul_zero, Nat.zero_add] at hsplit
    omega
  · exact Nat.mul_ne_zero (by omega) (Nat.pos_iff_ne_zero.mp (twoTo_pos _))

/-- The exact value, as a decimal one. -/
theorem ofDecimal_units (hpos : magnitude ≠ 0) (hfin : magnitude < l.infinity)
    (hscale : l.scale ≤ 400) :
    l.ofDecimal (l.units magnitude * Nat.pow 5 l.scale) (-(l.scale : Int)) = magnitude := by
  have hfive : 0 < Nat.pow 5 l.scale := Nat.pow_pos (by decide)
  have hten : tenTo l.scale = twoTo l.scale * Nat.pow 5 l.scale := Nat.mul_pow 2 5 l.scale
  have hdigits : l.units magnitude * Nat.pow 5 l.scale ≠ 0 :=
    Nat.mul_ne_zero (l.units_ne_zero hpos) (Nat.pos_iff_ne_zero.mp hfive)
  have hzero : (-(l.scale : Int)).toNat = 0 := by omega
  have hneg : (-(-(l.scale : Int))).toNat = l.scale := by omega
  rw [l.ofDecimal_eq_round hdigits (by omega) (by omega), hzero, hneg, hten]
  exact (congrArg (l.round · _) (Nat.mul_one _)).trans
    ((l.round_mul_right _ _ hfive).trans (l.round_units hfin))

/-- The digits that are chosen read back to the magnitude. -/
theorem shortestFrom_reads (hpos : magnitude ≠ 0) (hfin : magnitude < l.infinity)
    (hscale : l.scale ≤ 400) {top : Int} {fuel count : Nat} (htop : -400 ≤ top - (count + fuel)) :
    l.ofDecimal (l.shortestFrom magnitude top fuel count).1
        (l.shortestFrom magnitude top fuel count).2 = magnitude ∧
      -400 ≤ (l.shortestFrom magnitude top fuel count).2 := by
  induction fuel generalizing count with
  | zero => exact ⟨l.ofDecimal_units hpos hfin hscale, by rw [shortestFrom]; omega⟩
  | succ fuel ih =>
    rw [shortestFrom]
    split
    · rename_i c hc
      have hreads := List.find?_some hc
      exact ⟨of_decide_eq_true hreads, by omega⟩
    · exact ih (by omega)

/-- The shortest digits read back to their magnitude, in a format whose steps are not too small. -/
theorem shortest_reads (hscale : l.scale ≤ 400)
    (hstep : tenTo 18 * twoTo l.scale ≤ tenTo 400) (hpos : magnitude ≠ 0)
    (hfin : magnitude < l.infinity) :
    l.ofDecimal (l.shortest magnitude).1 (l.shortest magnitude).2 = magnitude ∧
      -400 ≤ (l.shortest magnitude).2 := by
  have htop : -382 ≤ l.decimalExponent magnitude := by
    have hunits : 1 ≤ l.units magnitude := Nat.pos_iff_ne_zero.mpr (l.units_ne_zero hpos)
    have hlarge : tenTo 18 ≤ l.units magnitude * tenTo 400 / twoTo l.scale := by
      rw [Nat.le_div_iff_mul_le (twoTo_pos _)]
      exact Nat.le_trans hstep (Nat.le_mul_of_pos_left _ hunits)
    have hlength :
        ¬(Nat.toDigits 10 (l.units magnitude * tenTo 400 / twoTo l.scale)).length ≤ 18 := by
      rw [Nat.length_toDigits_le_iff (by decide) (by decide)]
      exact Nat.not_lt.mpr hlarge
    unfold decimalExponent
    omega
  exact l.shortestFrom_reads hpos hfin hscale (by omega)

end Layout

/-! ### Positional notation -/

/-- Only zeros are trimmed. -/
theorem exists_eq_trimZeros_append (cs : List Char) :
    ∃ j, cs = trimZeros cs ++ List.replicate j '0' := by
  have hzeros : cs.reverse.takeWhile (· = '0') =
      List.replicate (cs.reverse.takeWhile (· = '0')).length '0' := by
    refine List.eq_replicate_iff.mpr ⟨rfl, fun c hc => ?_⟩
    have hall := List.all_takeWhile (p := (· = '0')) (l := cs.reverse)
    exact of_decide_eq_true (List.all_eq_true.mp hall c hc)
  have hsplit := List.takeWhile_append_dropWhile (p := (· = '0')) (l := cs.reverse)
  refine ⟨(cs.reverse.takeWhile (· = '0')).length, ?_⟩
  rw [hzeros] at hsplit
  have hreverse := congrArg List.reverse hsplit
  rw [List.reverse_append, List.reverse_replicate, List.reverse_reverse] at hreverse
  exact hreverse.symm

theorem isDigit_of_mem_trimZeros {cs : List Char} (h : ∀ c ∈ cs, c.isDigit = true) {c : Char}
    (hc : c ∈ trimZeros cs) : c.isDigit = true := by
  obtain ⟨j, hj⟩ := exists_eq_trimZeros_append cs
  refine h c ?_
  rw [hj]
  exact List.mem_append_left _ hc

/-- Digits alone. -/
theorem readScientific?_digits {whole : List Char} (hwhole : ∀ c ∈ whole, c.isDigit = true)
    (hne : whole ≠ []) : readScientific? whole = some (Nat.ofDigitChars 10 whole 0, 0) := by
  have hcount : whole.length + 0 ≠ 0 := by
    rw [Nat.add_zero]
    exact Nat.pos_iff_ne_zero.mp (List.length_pos_iff.mpr hne)
  unfold readScientific?
  simp only [readDigits_eq hwhole, if_neg hcount]
  rfl

/-- Digits, a point, and further digits. -/
theorem readScientific?_point {whole fraction : List Char} (hwhole : ∀ c ∈ whole, c.isDigit = true)
    (hne : whole ≠ []) (hfraction : ∀ c ∈ fraction, c.isDigit = true) :
    readScientific? (whole ++ '.' :: fraction) =
      some (Nat.ofDigitChars 10 (whole ++ fraction) 0, -(fraction.length : Int)) := by
  have hcount : whole.length + fraction.length ≠ 0 := by
    have hpos := List.length_pos_iff.mpr hne
    omega
  have hpoint : ∀ c ∈ ('.' :: fraction).head?, c.isDigit = false := by simp
  have hread := readDigits_append hwhole hpoint 0
  unfold readScientific?
  simp only [hread, readDigits_eq hfraction, if_neg hcount, Nat.ofDigitChars_append]

/-- A fraction with all its digits. -/
def paddedFraction (m k : Nat) : List Char :=
  List.replicate (k - (Nat.toDigits 10 (m % tenTo k)).length) '0' ++ Nat.toDigits 10 (m % tenTo k)

theorem isDigit_of_mem_paddedFraction {m k : Nat} {c : Char} (h : c ∈ paddedFraction m k) :
    c.isDigit = true := by
  rcases List.mem_append.mp h with h | h
  · rw [List.eq_of_mem_replicate h]
    rfl
  · exact isDigit_of_mem_toDigits h

theorem length_toDigits_mod_le (m : Nat) {k : Nat} (hk : 0 < k) :
    (Nat.toDigits 10 (m % tenTo k)).length ≤ k :=
  (Nat.length_toDigits_le_iff (by decide) hk).mpr (Nat.mod_lt _ (tenTo_pos k))

theorem length_paddedFraction (m : Nat) {k : Nat} (hk : 0 < k) :
    (paddedFraction m k).length = k := by
  rw [paddedFraction, List.length_append, List.length_replicate]
  exact Nat.sub_add_cancel (length_toDigits_mod_le m hk)

/-- The digits before the point and those of the fraction are the digits of the whole number. -/
theorem ofDigitChars_paddedFraction (m : Nat) {k : Nat} (hk : 0 < k) :
    Nat.ofDigitChars 10 (paddedFraction m k) (m / tenTo k) = m := by
  have hlength := length_paddedFraction m hk
  rw [Nat.ofDigitChars_eq_ofDigitChars_zero, hlength, paddedFraction, Nat.ofDigitChars_append,
    Nat.ofDigitChars_replicate_zero, Nat.mul_zero, Nat.ofDigitChars_ten_toDigits]
  exact Nat.div_add_mod m (tenTo k)

theorem toList_toString (n : Nat) : (toString n).toList = Nat.toDigits 10 n := Nat.toList_repr

theorem toList_positional_ofNat (m k : Nat) :
    (positional m (.ofNat k)).toList = Nat.toDigits 10 (m * tenTo k) := Nat.toList_repr

theorem toList_positional_negSucc (m k : Nat) :
    (positional m (.negSucc k)).toList =
      Nat.toDigits 10 (m / tenTo (k + 1)) ++
        if trimZeros (paddedFraction m (k + 1)) = [] then []
        else '.' :: trimZeros (paddedFraction m (k + 1)) := by
  unfold positional paddedFraction
  simp only [List.isEmpty_iff]
  split
  · rw [toList_toString, List.append_nil]
  · have hpoint : ".".toList = ['.'] := rfl
    rw [String.toList_append, String.toList_append, toList_toString, hpoint, String.toList_ofList,
      List.append_assoc]
    rfl

/-- The text of a decimal value reads as that value, but for zeros at the end. -/
theorem readScientific?_positional (m : Nat) (e : Int) :
    ∃ (m' j : Nat) (e' : Int), readScientific? (positional m e).toList = some (m', e') ∧
      m * tenTo e.toNat = m' * tenTo j ∧ e' = e - e.toNat + j ∧ e' ≤ 0 := by
  have hdigits : ∀ n, ∀ c ∈ Nat.toDigits 10 n, c.isDigit = true :=
    fun n c hc => isDigit_of_mem_toDigits hc
  cases e with
  | ofNat k =>
    -- The zeros of a power of ten are written out, so nothing is left for an exponent.
    refine ⟨m * tenTo k, 0, 0, ?_, (Nat.mul_one _).symm, by simp, Int.le_refl 0⟩
    rw [toList_positional_ofNat, readScientific?_digits (hdigits _) Nat.toDigits_ne_nil,
      Nat.ofDigitChars_ten_toDigits]
  | negSucc k =>
    have hpadded := ofDigitChars_paddedFraction m (Nat.succ_pos k)
    have hlength := length_paddedFraction m (Nat.succ_pos k)
    -- Zeros at the end of the fraction are left out, and that changes the digits but not the
    -- number.
    obtain ⟨j, hj⟩ := exists_eq_trimZeros_append (paddedFraction m (k + 1))
    have hfraction : ∀ c ∈ trimZeros (paddedFraction m (k + 1)), c.isDigit = true :=
      fun c hc => isDigit_of_mem_trimZeros (fun c hc => isDigit_of_mem_paddedFraction hc) hc
    rw [toList_positional_negSucc]
    rw [hj, Nat.ofDigitChars_append, Nat.ofDigitChars_replicate_zero] at hpadded
    rw [hj, List.length_append, List.length_replicate] at hlength
    generalize trimZeros (paddedFraction m (k + 1)) = fraction at *
    refine ⟨Nat.ofDigitChars 10 fraction (m / tenTo (k + 1)), j, -(fraction.length : Int), ?_, ?_,
      by omega, by omega⟩
    · have hread :=
        readScientific?_point (hdigits (m / tenTo (k + 1))) Nat.toDigits_ne_nil hfraction
      rw [Nat.ofDigitChars_append, Nat.ofDigitChars_ten_toDigits] at hread
      split
      · -- No digit of the fraction is left, so there is no point either.
        rename_i hnone
        rw [hnone, List.append_nil, readScientific?_digits (hdigits _) Nat.toDigits_ne_nil,
          Nat.ofDigitChars_ten_toDigits]
        rfl
      · exact hread
    · change m * 1 = _
      rw [Nat.mul_one, Nat.mul_comm]
      exact hpadded.symm

theorem beginsWithDigit_positional (m : Nat) (e : Int) :
    BeginsWithDigit (positional m e).toList := by
  cases e with
  | ofNat k =>
    rw [toList_positional_ofNat]
    exact beginsWithDigit_toDigits _
  | negSucc k =>
    rw [toList_positional_negSucc]
    exact (beginsWithDigit_toDigits _).append _

theorem numeral_of_mem_positional {m : Nat} {e : Int} {c : Char}
    (h : c ∈ (positional m e).toList) : Numeral c := by
  cases e with
  | ofNat k =>
    rw [toList_positional_ofNat] at h
    exact numeral_of_mem_toDigits h
  | negSucc k =>
    rw [toList_positional_negSucc] at h
    rcases List.mem_append.mp h with h | h
    · exact numeral_of_mem_toDigits h
    · split at h
      · exact absurd h List.not_mem_nil
      · rcases List.mem_cons.mp h with rfl | h
        · exact Or.inr (by decide)
        · exact Or.inl (isDigit_of_mem_trimZeros (fun c hc => isDigit_of_mem_paddedFraction hc) h)

/-- What is written of digits that read back to a magnitude reads back to it, too. -/
theorem exists_readScientific?_positional {l : Layout} {m magnitude : Nat} {e : Int}
    (h : l.ofDecimal m e = magnitude) (hpos : magnitude ≠ 0) (hfin : magnitude < l.infinity)
    (hlow : -400 ≤ e) :
    ∃ s, readScientific? (positional m e).toList = some s ∧ l.ofDecimal s.1 s.2 = magnitude := by
  obtain ⟨m', j, e', hread, hm, he', hnonpos⟩ := readScientific?_positional m e
  obtain ⟨hdigits, hhigh⟩ := l.le_of_ofDecimal h hpos hfin
  -- A number that is not zero is not written as zero.
  have hm' : m' ≠ 0 := by
    rintro rfl
    rw [Nat.zero_mul] at hm
    exact Nat.mul_ne_zero hdigits (Nat.pos_iff_ne_zero.mp (tenTo_pos _)) hm
  refine ⟨_, hread, ?_⟩
  calc l.ofDecimal m' e'
      = l.ofDecimal (m' * tenTo j) (e - e.toNat) := by
        rw [l.ofDecimal_mul_tenTo hm' j (by omega) (by omega), he']
    _ = l.ofDecimal (m * tenTo e.toNat) (e - e.toNat) := by rw [hm]
    _ = l.ofDecimal m e := by
        rw [l.ofDecimal_mul_tenTo hdigits _ (by omega) (by omega), Int.sub_add_cancel]
    _ = magnitude := h

/-! ### Whole texts -/

/-- A digit is no letter. -/
theorem toLower_of_isDigit {c : Char} (h : c.isDigit = true) : c.toLower = c := by
  refine dif_neg fun hletter => ?_
  have hdigit : c.val ≤ '9'.val := (isDigit_iff.mp h).2
  have hupper : 'A'.val ≤ c.val := hletter.1
  exact absurd (UInt32.le_trans hupper hdigit) (by decide)

/-- A text that begins with a digit is not the name of a value. -/
theorem read?_of_beginsWithDigit (l : Layout) {s : String} {minus : Bool} {body : List Char}
    (hs : readSign s.toList = (minus, body)) (h : BeginsWithDigit body) :
    l.read? s = (readScientific? body).map fun d =>
      (if minus then l.signBit else 0) + l.ofDecimal d.1 d.2 := by
  obtain ⟨c, rest, rfl, hc⟩ := h
  -- No name of a number begins with a digit.
  have hname : ∀ (word : String) (d : Char) (letters : List Char), word.toList = d :: letters →
      d.isDigit = false → String.ofList ((c :: rest).map Char.toLower) ≠ word := by
    rintro word d letters hword hletter rfl
    rw [String.toList_ofList, List.map_cons, toLower_of_isDigit hc] at hword
    obtain ⟨rfl, -⟩ := List.cons.inj hword
    simp [hc] at hletter
  unfold Layout.read?
  rw [hs]
  dsimp only
  rw [if_neg (by
      rintro (hinf | hinf)
      · exact hname "inf" 'i' _ rfl rfl hinf
      · exact hname "infinity" 'i' _ rfl rfl hinf),
    if_neg (hname "nan" 'n' _ rfl rfl)]

/-- What is written for a sign. -/
def signText (minus : Bool) : String := if minus then "-" else ""

/-- The sign of a text that begins with a digit. -/
theorem readSign_signText_append (minus : Bool) {body : String} (h : BeginsWithDigit body.toList) :
    readSign (signText minus ++ body).toList = (minus, body.toList) := by
  rw [String.toList_append]
  cases minus
  · exact readSign_of_beginsWithDigit h
  · rfl

namespace Layout

variable (l : Layout)

/-- The bits of a magnitude with a sign. -/
def signed (minus : Bool) (magnitude : Nat) : Nat := (if minus then l.signBit else 0) + magnitude

theorem signBit_pos : 0 < l.signBit := twoTo_pos _

theorem signed_mod (minus : Bool) {magnitude : Nat} (h : magnitude < l.signBit) :
    l.signed minus magnitude % l.signBit = magnitude := by
  cases minus
  · exact (congrArg (· % l.signBit) (Nat.zero_add magnitude)).trans (Nat.mod_eq_of_lt h)
  · exact (Nat.add_mod_left _ _).trans (Nat.mod_eq_of_lt h)

theorem signed_div (minus : Bool) {magnitude : Nat} (h : magnitude < l.signBit) :
    l.signed minus magnitude / l.signBit = if minus then 1 else 0 := by
  cases minus
  · exact (congrArg (· / l.signBit) (Nat.zero_add magnitude)).trans (Nat.div_eq_of_lt h)
  · exact (Nat.add_div_left _ l.signBit_pos).trans (congrArg (· + 1) (Nat.div_eq_of_lt h))

theorem exists_signed {bits : Nat} (h : bits < 2 * l.signBit) :
    ∃ minus magnitude, magnitude < l.signBit ∧ bits = l.signed minus magnitude := by
  by_cases hlow : bits < l.signBit
  · exact ⟨false, bits, hlow, (Nat.zero_add bits).symm⟩
  · exact ⟨true, bits - l.signBit, by omega, by simp only [signed, if_true]; omega⟩

theorem text_signed (minus : Bool) {magnitude : Nat} (h : magnitude < l.signBit) :
    l.text (l.signed minus magnitude) =
      if l.infinity < magnitude then "NaN"
      else if magnitude = l.infinity then signText minus ++ "inf"
      else if magnitude = 0 then signText minus ++ "0"
      else signText minus ++ positional (l.shortest magnitude).1 (l.shortest magnitude).2 := by
  have hsign : (if (if minus then 1 else 0) % 2 = 1 then "-" else "") = signText minus := by
    cases minus <;> rfl
  unfold text
  extract_lets written sign
  have hwritten : written = magnitude := l.signed_mod minus h
  have htext : sign = signText minus := by
    rw [← hsign, ← l.signed_div minus h]
  rw [hwritten]
  -- The search for the digits is not to be opened, so digits and exponent come first.
  cases l.shortest magnitude
  rw [htext]

theorem read?_nan : l.read? "NaN" = some l.nan := by
  have hsign : readSign "NaN".toList = (false, ['N', 'a', 'N']) := rfl
  unfold read?
  rw [hsign]
  exact (if_neg (by decide)).trans ((if_pos (by decide)).trans (congrArg some (Nat.zero_add _)))

theorem read?_inf (minus : Bool) :
    l.read? (signText minus ++ "inf") = some (l.signed minus l.infinity) := by
  have hsign : readSign (signText minus ++ "inf").toList = (minus, ['i', 'n', 'f']) := by
    cases minus <;> rfl
  unfold read?
  rw [hsign]
  exact if_pos (by decide)

theorem read?_zero (minus : Bool) :
    l.read? (signText minus ++ "0") = some (l.signed minus 0) := by
  have hbegins : BeginsWithDigit "0".toList := ⟨'0', [], rfl, rfl⟩
  have hread : readScientific? "0".toList = some (0, 0) := by decide
  rw [read?_of_beginsWithDigit l (readSign_signText_append minus hbegins) hbegins, hread]
  rfl

/-- The bits are read back from their text, if there is one value only that is no number. -/
theorem read?_text (hscale : l.scale ≤ 400) (hstep : tenTo 18 * twoTo l.scale ≤ tenTo 400)
    {bits : Nat} (h : bits < 2 * l.signBit) (hnan : l.infinity < bits % l.signBit → bits = l.nan) :
    l.read? (l.text bits) = some bits := by
  obtain ⟨minus, magnitude, hmagnitude, rfl⟩ := l.exists_signed h
  rw [l.signed_mod minus hmagnitude] at hnan
  rw [l.text_signed minus hmagnitude]
  split
  · rename_i hinf
    -- Of all the bits that are no number, one pattern is written.
    rw [hnan hinf]
    exact l.read?_nan
  · rename_i hnot
    split
    · rename_i hinf
      rw [hinf]
      exact l.read?_inf minus
    · rename_i hne
      split
      · rename_i hzero
        rw [hzero]
        exact l.read?_zero minus
      · rename_i hpos
        have hfin : magnitude < l.infinity :=
          Nat.lt_of_le_of_ne (Nat.le_of_not_lt hnot) hne
        -- What is left are numbers that are neither zero nor infinite.
        obtain ⟨hreads, hlow⟩ := l.shortest_reads hscale hstep hpos hfin
        obtain ⟨s, hs, hvalue⟩ := exists_readScientific?_positional hreads hpos hfin hlow
        have hbegins := beginsWithDigit_positional (l.shortest magnitude).1
          (l.shortest magnitude).2
        rw [read?_of_beginsWithDigit l (readSign_signText_append minus hbegins) hbegins, hs,
          Option.map_some, hvalue]
        rfl

/-- Which characters a text holds. -/
theorem numeral_of_mem_text {bits : Nat} (h : bits < 2 * l.signBit) {c : Char}
    (hc : c ∈ (l.text bits).toList) : Numeral c := by
  obtain ⟨minus, magnitude, hmagnitude, rfl⟩ := l.exists_signed h
  have hsigned : ∀ {body : String}, (∀ c ∈ body.toList, Numeral c) →
      c ∈ (signText minus ++ body).toList → Numeral c := by
    intro body hbody hc
    rcases List.mem_append.mp (String.toList_append ▸ hc) with hc | hc
    · -- A sign is a character of a number, too.
      refine Or.inr ?_
      cases minus
      · exact absurd hc List.not_mem_nil
      · exact List.mem_singleton.mp hc ▸ by decide
    · exact hbody c hc
  rw [l.text_signed minus hmagnitude] at hc
  split at hc
  · exact numeral_of_all (by decide) hc
  · split at hc
    · exact hsigned (fun c hc => numeral_of_all (by decide) hc) hc
    · split at hc
      · exact hsigned (fun c hc => numeral_of_all (by decide) hc) hc
      · exact hsigned (fun c hc => numeral_of_mem_positional hc) hc

end Layout

/-- A single is written with the characters of numbers. -/
theorem numeral_of_mem_singleText {x : Float32} {c : Char} (h : c ∈ (singleText x).toList) :
    Numeral c := single.numeral_of_mem_text x.toBits.toBitVec.isLt h

/-- A single is read back from its text. -/
theorem readSingle?_singleText (x : Float32) : readSingle? (singleText x) = some x := by
  have hbits : x.toBits.toNat < 2 * single.signBit := x.toBits.toBitVec.isLt
  rw [readSingle?, singleText,
    single.read?_text (by decide) (by decide +kernel) hbits toBits_eq_nan,
    Option.map_some, UInt32.ofNat_toNat, ofBits_toBits]

end Cutscene.Number
