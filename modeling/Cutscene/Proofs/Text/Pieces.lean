import Cutscene.Text.Blank
import Cutscene.Text.Pieces

/-!
# Cutting a text that has been joined

`Text.cut` takes joined texts apart again (`cut_intercalate`) and gives pieces without separators
(`mem_of_mem_cut`), `Text.cutOnce` finds the first separator (`cutOnce_append`), and trimming does
nothing to a text without blanks (`trimChars_eq_self`).
-/

namespace Cutscene.Text

variable {separator : Char} {piece rest : List Char}

theorem cut_of_not_mem (h : separator ∉ piece) : cut separator piece = [piece] := by
  induction piece with
  | nil => rfl
  | cons c piece ih =>
    obtain ⟨hc, htail⟩ := not_or.mp (mt List.mem_cons.mpr h)
    rw [cut, if_neg (Ne.symm hc), ih htail]

theorem cut_append (h : separator ∉ piece) :
    cut separator (piece ++ separator :: rest) = piece :: cut separator rest := by
  induction piece with
  | nil => exact if_pos rfl
  | cons c piece ih =>
    obtain ⟨hc, htail⟩ := not_or.mp (mt List.mem_cons.mpr h)
    rw [List.cons_append, cut, if_neg (Ne.symm hc), ih htail]

theorem intercalate_singleton (piece : List Char) : [separator].intercalate [piece] = piece := by
  simp [List.intercalate]

theorem intercalate_cons_cons (piece next : List Char) (pieces : List (List Char)) :
    [separator].intercalate (piece :: next :: pieces) =
      piece ++ separator :: [separator].intercalate (next :: pieces) := by
  simp [List.intercalate]

/-- A text that has been joined holds the separator, and what its pieces hold. -/
theorem mem_intercalate {pieces : List (List Char)} {c : Char}
    (h : c ∈ [separator].intercalate pieces) : c = separator ∨ ∃ piece ∈ pieces, c ∈ piece := by
  induction pieces with
  | nil => exact absurd h List.not_mem_nil
  | cons piece pieces ih =>
    cases pieces with
    | nil => exact Or.inr ⟨piece, List.mem_cons_self, intercalate_singleton piece ▸ h⟩
    | cons next pieces =>
      rw [intercalate_cons_cons, List.mem_append, List.mem_cons] at h
      rcases h with hpiece | hseparator | hrest
      · exact Or.inr ⟨piece, List.mem_cons_self, hpiece⟩
      · exact Or.inl hseparator
      · refine (ih hrest).imp_right ?_
        rintro ⟨later, hlater, hc⟩
        exact ⟨later, List.mem_cons_of_mem piece hlater, hc⟩

/-- Texts that have been joined are cut into the same texts. -/
theorem cut_intercalate {pieces : List (List Char)} (h : ∀ piece ∈ pieces, separator ∉ piece)
    (hne : pieces ≠ []) : cut separator ([separator].intercalate pieces) = pieces := by
  induction pieces with
  | nil => exact absurd rfl hne
  | cons piece pieces ih =>
    have hpiece := h piece List.mem_cons_self
    cases pieces with
    | nil =>
      rw [intercalate_singleton]
      exact cut_of_not_mem hpiece
    | cons next pieces =>
      rw [intercalate_cons_cons, cut_append hpiece,
        ih (fun l hl => h l (List.mem_cons_of_mem piece hl)) (List.cons_ne_nil next pieces)]

/-- A piece holds only what the text holds, and not the separator. -/
theorem mem_of_mem_cut {cs : List Char} (h : piece ∈ cut separator cs) {c : Char}
    (hc : c ∈ piece) : c ∈ cs ∧ c ≠ separator := by
  induction cs generalizing piece with
  | nil =>
    rw [List.mem_singleton.mp h] at hc
    exact absurd hc List.not_mem_nil
  | cons d rest ih =>
    have hrest : piece ∈ cut separator rest → c ∈ d :: rest ∧ c ≠ separator := fun hpiece =>
      (ih hpiece hc).imp_left (List.mem_cons_of_mem d)
    rw [cut] at h
    split at h
    · rcases List.mem_cons.mp h with rfl | hpiece
      · exact absurd hc List.not_mem_nil
      · exact hrest hpiece
    · rename_i hd
      -- The first piece of the rest grows by the character before it.
      have hgrown : ∀ tail, piece = d :: tail → (c ∈ tail → c ∈ rest ∧ c ≠ separator) →
          c ∈ d :: rest ∧ c ≠ separator := by
        rintro tail rfl htail
        rcases List.mem_cons.mp hc with rfl | hmem
        · exact ⟨List.mem_cons_self, hd⟩
        · exact (htail hmem).imp_left (List.mem_cons_of_mem d)
      split at h
      · exact hgrown [] (List.mem_singleton.mp h) fun hmem => absurd hmem List.not_mem_nil
      · rename_i first pieces hcut
        rcases List.mem_cons.mp h with hpiece | hpiece
        · refine hgrown first hpiece fun hmem => ih ?_ hmem
          rw [hcut]
          exact List.mem_cons_self
        · refine hrest ?_
          rw [hcut]
          exact List.mem_cons_of_mem first hpiece

theorem cutOnce_append (h : separator ∉ piece) :
    cutOnce separator (piece ++ separator :: rest) = some (piece, rest) := by
  induction piece with
  | nil => exact if_pos rfl
  | cons c piece ih =>
    obtain ⟨hc, htail⟩ := not_or.mp (mt List.mem_cons.mpr h)
    rw [List.cons_append, cutOnce, if_neg (Ne.symm hc), ih htail]
    rfl

theorem dropWhile_isBlank_eq_self {cs : List Char} (h : ∀ c ∈ cs, isBlank c = false) :
    cs.dropWhile isBlank = cs := by
  cases cs with
  | nil => rfl
  | cons c rest => exact List.dropWhile_cons_of_neg (by simp [h c List.mem_cons_self])

/-- A text without blanks is left as it is. -/
theorem trimChars_eq_self {cs : List Char} (h : ∀ c ∈ cs, isBlank c = false) :
    trimChars cs = cs := by
  have hreverse : ∀ c ∈ cs.reverse, isBlank c = false := fun c hc => h c (List.mem_reverse.mp hc)
  rw [trimChars, dropWhile_isBlank_eq_self h, dropWhile_isBlank_eq_self hreverse,
    List.reverse_reverse]

end Cutscene.Text
