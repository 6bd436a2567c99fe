import Cutscene.Number.Decimal

/-!
# Numbers in digits

Reading digits is `Nat.ofDigitChars`, as far as there are digits (`readDigits_append`). So an
integer is read back from its text (`readInt?_text`), and so is a machine word (`readWord?_text`).
-/

namespace Cutscene.Number

/-- A text that begins with a digit. -/
def BeginsWithDigit (cs : List Char) : Prop := ∃ c rest, cs = c :: rest ∧ c.isDigit = true

theorem BeginsWithDigit.append {cs : List Char} (h : BeginsWithDigit cs) (rest : List Char) :
    BeginsWithDigit (cs ++ rest) := by
  obtain ⟨c, tail, rfl, hc⟩ := h
  exact ⟨c, tail ++ rest, rfl, hc⟩

theorem isDigit_iff {c : Char} : c.isDigit = true ↔ '0' ≤ c ∧ c ≤ '9' := by
  simp only [Char.isDigit, Bool.and_eq_true, decide_eq_true_eq]
  exact Iff.rfl

theorem digit?_of_isDigit {c : Char} (h : c.isDigit = true) :
    digit? c = some (c.toNat - '0'.toNat) := if_pos (isDigit_iff.mp h)

theorem digit?_of_not_isDigit {c : Char} (h : c.isDigit = false) : digit? c = none := by
  refine if_neg fun hdigit => ?_
  rw [isDigit_iff.mpr hdigit] at h
  simp at h

/-- All digits are read, and no more. -/
theorem readDigits_append {cs rest : List Char} (h : ∀ c ∈ cs, c.isDigit = true)
    (hrest : ∀ c ∈ rest.head?, c.isDigit = false) (n : Nat) :
    readDigits n (cs ++ rest) = (Nat.ofDigitChars 10 cs n, cs.length, rest) := by
  induction cs generalizing n with
  | nil =>
    cases rest with
    | nil => rfl
    | cons c rest =>
      rw [List.nil_append, readDigits, digit?_of_not_isDigit (hrest c rfl)]
      rfl
  | cons c cs ih =>
    rw [List.cons_append, readDigits, digit?_of_isDigit (h c List.mem_cons_self)]
    dsimp only
    rw [ih (fun d hd => h d (List.mem_cons_of_mem c hd)), Nat.ofDigitChars_cons, List.length_cons]

theorem readDigits_eq {cs : List Char} (h : ∀ c ∈ cs, c.isDigit = true) (n : Nat) :
    readDigits n cs = (Nat.ofDigitChars 10 cs n, cs.length, []) := by
  have hend : ∀ c ∈ ([] : List Char).head?, c.isDigit = false := by simp
  have hread := readDigits_append h hend n
  rw [List.append_nil] at hread
  exact hread

theorem isDigit_of_mem_toDigits {n : Nat} {c : Char} (h : c ∈ Nat.toDigits 10 n) :
    c.isDigit = true := Nat.isDigit_of_mem_toDigits (by decide) (by decide) h

theorem beginsWithDigit_toDigits (n : Nat) : BeginsWithDigit (Nat.toDigits 10 n) := by
  cases h : Nat.toDigits 10 n with
  | nil => exact absurd h Nat.toDigits_ne_nil
  | cons c rest =>
    refine ⟨c, rest, rfl, isDigit_of_mem_toDigits (n := n) ?_⟩
    rw [h]
    exact List.mem_cons_self

/-- A digit is no sign. -/
theorem readSign_of_beginsWithDigit {cs : List Char} (h : BeginsWithDigit cs) :
    readSign cs = (false, cs) := by
  obtain ⟨c, rest, rfl, hc⟩ := h
  unfold readSign
  split
  · simp_all
  · simp_all
  · rfl

/-- A natural number is read from its digits. -/
theorem readDigits_toDigits (n : Nat) :
    readDigits 0 (Nat.toDigits 10 n) = (n, (Nat.toDigits 10 n).length, []) := by
  rw [readDigits_eq fun c hc => isDigit_of_mem_toDigits hc, Nat.ofDigitChars_ten_toDigits]

theorem toList_toString_negSucc (n : Nat) :
    (toString (Int.negSucc n)).toList = '-' :: Nat.toDigits 10 (n + 1) := by
  change ("-" ++ Nat.repr (n + 1)).toList = _
  rw [String.toList_append, Nat.toList_repr]
  rfl

/-- An integer is read back from its text. -/
theorem readInt?_text (i : Int) : readInt? (toString i).toList = some i := by
  have hread : ∀ (minus : Bool) (cs : List Char) (n : Nat),
      readSign cs = (minus, Nat.toDigits 10 n) →
      readInt? cs = some (if minus then -(n : Int) else n) := by
    intro minus cs n hsign
    -- There is a digit to be read.
    obtain ⟨k, hk⟩ : ∃ k, (Nat.toDigits 10 n).length = k + 1 :=
      Nat.exists_eq_add_one_of_ne_zero (Nat.pos_iff_ne_zero.mp Nat.length_toDigits_pos)
    unfold readInt?
    rw [hsign]
    dsimp only
    rw [readDigits_toDigits, hk]
    rfl
  cases i with
  | ofNat n =>
    have htext : (toString (Int.ofNat n)).toList = Nat.toDigits 10 n := Nat.toList_repr
    -- A digit is no sign, so all of the text is read as digits.
    rw [htext, hread false _ n (readSign_of_beginsWithDigit (beginsWithDigit_toDigits n))]
    rfl
  | negSucc n =>
    rw [toList_toString_negSucc, hread true _ (n + 1) rfl]
    rfl

/-- A number of 32 bits is read back from its text. -/
theorem readInt32?_text (v : Int32) : readInt32? (toString v.toInt).toList = some v := by
  have hfits : FitsInt32 v.toInt := ⟨v.le_toInt, v.toInt_lt⟩
  rw [readInt32?, readInt?_text, Option.bind_some, int32?, if_pos hfits, Int32.ofInt_toInt]

/-- A number of the size of a machine word is read back from its text. -/
theorem readWord?_text {n : Nat} (h : n < UInt64.size) :
    readWord? (toString n).toList = some n := by
  have htext : (toString n).toList = Nat.toDigits 10 n := Nat.toList_repr
  obtain ⟨k, hk⟩ : ∃ k, (Nat.toDigits 10 n).length = k + 1 :=
    Nat.exists_eq_add_one_of_ne_zero (Nat.pos_iff_ne_zero.mp Nat.length_toDigits_pos)
  have hread := readDigits_toDigits n
  obtain ⟨c, rest, hdigits, hc⟩ := beginsWithDigit_toDigits n
  rw [hk, hdigits] at hread
  rw [htext, hdigits]
  unfold readWord?
  split
  · rename_i hplus
    -- The text begins with a digit, which a plus is not.
    obtain ⟨rfl, -⟩ := List.cons.inj hplus
    simp at hc
  · dsimp only
    rw [hread]
    exact if_pos h

/-- No other number is read. -/
theorem lt_of_readWord? {cs : List Char} {n : Nat} (h : readWord? cs = some n) :
    n < UInt64.size := by
  unfold readWord? at h
  dsimp only at h
  split at h
  · simp at h
  · split at h
    · rename_i hlt
      exact Option.some.inj h ▸ hlt
    · simp at h
  · simp at h

/-! ### Which characters a number is written with -/

/-- Everything but digits that the text of a number may hold. -/
def signs : List Char := ['-', '.', 'N', 'a', 'i', 'n', 'f']

/-- A character of a number. -/
def Numeral (c : Char) : Prop := c.isDigit = true ∨ c ∈ signs

instance : DecidablePred Numeral := fun _ => inferInstanceAs (Decidable (_ ∨ _))

theorem numeral_of_all {cs : List Char} (h : (cs.all fun c => decide (Numeral c)) = true) {c : Char}
    (hc : c ∈ cs) : Numeral c := of_decide_eq_true (List.all_eq_true.mp h c hc)

theorem numeral_of_mem_toDigits {n : Nat} {c : Char} (h : c ∈ Nat.toDigits 10 n) : Numeral c :=
  Or.inl (isDigit_of_mem_toDigits h)

theorem numeral_of_mem_nat {n : Nat} {c : Char} (h : c ∈ (toString n).toList) : Numeral c := by
  have htext : (toString n).toList = Nat.toDigits 10 n := Nat.toList_repr
  rw [htext] at h
  exact numeral_of_mem_toDigits h

theorem numeral_of_mem_int {i : Int} {c : Char} (h : c ∈ (toString i).toList) : Numeral c := by
  cases i with
  | ofNat n => exact numeral_of_mem_nat h
  | negSucc n =>
    rw [toList_toString_negSucc] at h
    rcases List.mem_cons.mp h with rfl | h
    · exact Or.inr (by decide)
    · exact numeral_of_mem_toDigits h

/-- No character that separates anything belongs to a number. -/
theorem Numeral.ne {c separator : Char} (h : Numeral c)
    (hseparator : separator.isDigit = false ∧ separator ∉ signs) : c ≠ separator := by
  rintro rfl
  rcases h with h | h
  · simp [h] at hseparator
  · exact hseparator.2 h

theorem not_mem_of_numeral {cs : List Char} (h : ∀ c ∈ cs, Numeral c) {separator : Char}
    (hseparator : separator.isDigit = false ∧ separator ∉ signs) : separator ∉ cs :=
  fun hmem => (h separator hmem).ne hseparator rfl

end Cutscene.Number
