import Cutscene.Proofs.Text.Escape
import Cutscene.Text.Blank
import Mathlib.Data.List.DropRight

/-!
# Blanks at the ends of a text

A text is `Trimmed` if neither end of it is blank, so that there is nothing to trim. Trimming gives
such a text (`trimmed_trimChars`), and reading tokens leaves it so (`Trimmed.unescapeChars`), as no
delimiter is blank. For the same reason it does not matter whether a text is trimmed before or after
it is escaped (`trimChars_escapeChars`).
-/

namespace Cutscene.Text

/-- Neither end of the text is blank. -/
def Trimmed (cs : List Char) : Prop :=
  (∀ c ∈ cs.head?, isBlank c = false) ∧ ∀ c ∈ cs.getLast?, isBlank c = false

theorem trimChars_eq (cs : List Char) :
    trimChars cs = (cs.dropWhile isBlank).rdropWhile isBlank := rfl

theorem dropWhile_isBlank_of_head? {cs : List Char} (h : ∀ c ∈ cs.head?, isBlank c = false) :
    cs.dropWhile isBlank = cs := by
  cases cs with
  | nil => rfl
  | cons c rest => exact List.dropWhile_cons_of_neg (by simp [h c rfl])

theorem rdropWhile_isBlank_of_getLast? {cs : List Char}
    (h : ∀ c ∈ cs.getLast?, isBlank c = false) : cs.rdropWhile isBlank = cs := by
  refine (List.rdropWhile_eq_self_iff (p := isBlank)).mpr fun hne => ?_
  simp [h _ (List.getLast?_eq_some_getLast hne)]

/-- There is nothing to trim. -/
theorem Trimmed.trimChars_eq {cs : List Char} (h : Trimmed cs) : trimChars cs = cs := by
  rw [Text.trimChars_eq, dropWhile_isBlank_of_head? h.1, rdropWhile_isBlank_of_getLast? h.2]

theorem trimmed_trimChars (cs : List Char) : Trimmed (trimChars cs) := by
  constructor
  · intro c hc
    -- What is trimmed at the right end is the beginning of what was trimmed at the left end.
    obtain ⟨tail, htail⟩ := List.rdropWhile_prefix isBlank (cs.dropWhile isBlank)
    have hhead : c ∈ (cs.dropWhile isBlank).head? := by
      rw [← htail, List.head?_append]
      rw [Text.trimChars_eq] at hc
      rw [hc]
      rfl
    have hnot := List.head?_dropWhile_not isBlank cs
    rw [hhead] at hnot
    simpa using hnot
  · intro c hc
    obtain ⟨hne, rfl⟩ := List.mem_getLast?_eq_getLast hc
    exact Bool.eq_false_iff.mpr (List.rdropWhile_last_not isBlank (cs.dropWhile isBlank) hne)

/-- A text that is not all blank is not trimmed to nothing. -/
theorem trimChars_ne_nil {cs : List Char} {c : Char} (hc : c ∈ cs) (hblank : isBlank c = false) :
    trimChars cs ≠ [] := by
  have hdrop : cs.dropWhile isBlank ≠ [] := by
    intro hnil
    simp [List.dropWhile_eq_nil_iff.mp hnil c hc] at hblank
  intro hnil
  rw [Text.trimChars_eq, List.rdropWhile_eq_nil_iff] at hnil
  -- The first character that is left after the left end is trimmed is not blank.
  have hhead := List.head_dropWhile_not isBlank hdrop
  simp [hnil _ (List.head_mem hdrop)] at hhead

/-- Only of a text that is all blank nothing is left. -/
theorem trimChars_eq_nil_iff {cs : List Char} : trimChars cs = [] ↔ ∀ c ∈ cs, isBlank c = true := by
  constructor
  · intro hnil c hc
    by_contra hblank
    exact trimChars_ne_nil hc (by simpa using hblank) hnil
  · intro hblank
    rw [Text.trimChars_eq, List.dropWhile_eq_nil_iff.mpr hblank]
    rfl

/-! ### Tokens at the ends -/

theorem mem_getLast?_cons {a c : Char} {cs : List Char} (h : c ∈ (a :: cs).getLast?) :
    cs = [] ∧ c = a ∨ c ∈ cs.getLast? := by
  cases hlast : cs.getLast? with
  | none =>
    rw [List.getLast?_cons, hlast] at h
    exact Or.inl ⟨List.getLast?_eq_none_iff.mp hlast, (Option.some.inj h).symm⟩
  | some d =>
    rw [List.getLast?_cons, hlast] at h
    exact Or.inr h

theorem mem_getLast?_append {c : Char} (before : List Char) {cs : List Char}
    (h : c ∈ cs.getLast?) : c ∈ (before ++ cs).getLast? := by
  rw [List.getLast?_append, h]
  rfl

theorem unescapeChars_eq_nil {cs : List Char} (h : unescapeChars cs = []) : cs = [] := by
  unfold unescapeChars at h
  split at h <;> simp at h
  rfl

theorem head?_unescapeChars {cs : List Char} {c : Char} (h : c ∈ (unescapeChars cs).head?) :
    c ∈ cs.head? ∨ isBlank c = false := by
  unfold unescapeChars at h
  split at h
  case h_5 => exact Or.inl h
  case h_6 => exact Or.inl h
  all_goals
    obtain rfl := Option.some.inj h
    exact Or.inr (by decide)

theorem getLast?_unescapeChars {cs : List Char} {c : Char}
    (h : c ∈ (unescapeChars cs).getLast?) : c ∈ cs.getLast? ∨ isBlank c = false := by
  -- If it is not the token itself that comes last, the text ends as what follows the token.
  have htoken : ∀ (d : Char) (token rest : List Char), isBlank d = false →
      (c ∈ (unescapeChars rest).getLast? → c ∈ rest.getLast? ∨ isBlank c = false) →
      c ∈ (d :: unescapeChars rest).getLast? →
      c ∈ (token ++ rest).getLast? ∨ isBlank c = false := by
    intro d token rest hd ih hc
    rcases mem_getLast?_cons hc with ⟨-, rfl⟩ | hlater
    · exact Or.inr hd
    · exact (ih hlater).imp_left (mem_getLast?_append token)
  fun_induction unescapeChars cs with
  | case1 rest ih => exact htoken '*' ['*', 'S', 'T', 'A', 'R', '*'] rest (by decide) ih h
  | case2 rest ih => exact htoken ':' ['*', 'C', 'O', 'L', 'O', 'N', '*'] rest (by decide) ih h
  | case3 rest ih => exact htoken '|' ['*', 'P', 'I', 'P', 'E', '*'] rest (by decide) ih h
  | case4 rest ih =>
    exact htoken ';' ['*', 'S', 'E', 'M', 'I', 'C', 'O', 'L', 'O', 'N', '*'] rest (by decide) ih h
  | case5 d rest _ _ _ _ ih =>
    rcases mem_getLast?_cons h with ⟨hrest, rfl⟩ | hlater
    · rw [unescapeChars_eq_nil hrest]
      exact Or.inl rfl
    · exact (ih hlater).imp_left (mem_getLast?_append [d])
  | case6 => exact Or.inl h

/-- Tokens stand for characters that are not blank. -/
theorem Trimmed.unescapeChars {cs : List Char} (h : Trimmed cs) : Trimmed (unescapeChars cs) := by
  constructor
  · intro c hc
    exact (head?_unescapeChars hc).elim (h.1 c) id
  · intro c hc
    exact (getLast?_unescapeChars hc).elim (h.2 c) id

/-! ### Escaped characters -/

/-- A character is written as itself, or as a token, and then it is not blank. -/
theorem escapeChar_cases (c : Char) :
    escapeChar c = [c] ∨ isBlank c = false ∧ escapeChar c ≠ [] ∧ Trimmed (escapeChar c) := by
  have hspecial : ('*' :: delimiters).all (fun d => !isBlank d && !(escapeChar d).isEmpty &&
      (escapeChar d).all fun e => !isBlank e) = true := by decide
  have htoken : c ∈ '*' :: delimiters →
      isBlank c = false ∧ escapeChar c ≠ [] ∧ Trimmed (escapeChar c) := by
    intro hc
    have hall := List.all_eq_true.mp hspecial c hc
    simp only [Bool.and_eq_true, Bool.not_eq_true', List.all_eq_true] at hall
    obtain ⟨⟨hblank, hne⟩, hchars⟩ := hall
    exact ⟨hblank, List.isEmpty_eq_false_iff.mp hne,
      fun e he => hchars e (List.mem_of_mem_head? he),
      fun e he => hchars e (List.mem_of_mem_getLast? he)⟩
  by_cases hc : c ∈ '*' :: delimiters
  · exact Or.inr (htoken hc)
  · obtain ⟨hstar, hdelimiter⟩ := not_or.mp (mt List.mem_cons.mpr hc)
    exact Or.inl (escapeChar_of_plain hstar hdelimiter)

theorem escapeChar_of_blank {c : Char} (h : isBlank c = true) : escapeChar c = [c] := by
  rcases escapeChar_cases c with hplain | ⟨hblank, -⟩
  · exact hplain
  · simp [h] at hblank

theorem trimmed_escapeChar {c : Char} (h : isBlank c = false) :
    escapeChar c ≠ [] ∧ Trimmed (escapeChar c) := by
  rcases escapeChar_cases c with hplain | ⟨-, hne, htrimmed⟩
  · rw [hplain]
    refine ⟨List.cons_ne_nil c [], fun d hd => ?_, fun d hd => ?_⟩
    · exact Option.some.inj hd ▸ h
    · exact Option.some.inj hd ▸ h
  · exact ⟨hne, htrimmed⟩

theorem escapeChars_cons (c : Char) (cs : List Char) :
    escapeChars (c :: cs) = escapeChar c ++ escapeChars cs := List.flatMap_cons

theorem escapeChars_append (cs ds : List Char) :
    escapeChars (cs ++ ds) = escapeChars cs ++ escapeChars ds := List.flatMap_append

theorem escapeChars_singleton (c : Char) : escapeChars [c] = escapeChar c :=
  List.flatMap_singleton ..

theorem dropWhile_escapeChars (cs : List Char) :
    (escapeChars cs).dropWhile isBlank = escapeChars (cs.dropWhile isBlank) := by
  induction cs with
  | nil => rfl
  | cons c cs ih =>
    cases hc : isBlank c with
    | true =>
      rw [escapeChars_cons, escapeChar_of_blank hc, List.singleton_append,
        List.dropWhile_cons_of_pos hc, List.dropWhile_cons_of_pos hc, ih]
    | false =>
      obtain ⟨hne, htrimmed⟩ := trimmed_escapeChar hc
      rw [List.dropWhile_cons_of_neg (by simp [hc])]
      refine dropWhile_isBlank_of_head? fun d hd => htrimmed.1 d ?_
      rwa [escapeChars_cons, List.head?_append_of_ne_nil _ hne] at hd

theorem rdropWhile_escapeChars (cs : List Char) :
    (escapeChars cs).rdropWhile isBlank = escapeChars (cs.rdropWhile isBlank) := by
  induction cs using List.reverseRecOn with
  | nil => rfl
  | append_singleton cs c ih =>
    rw [escapeChars_append, escapeChars_singleton]
    cases hc : isBlank c with
    | true =>
      rw [escapeChar_of_blank hc, List.rdropWhile_concat_pos _ _ _ hc,
        List.rdropWhile_concat_pos _ _ _ hc, ih]
    | false =>
      obtain ⟨hne, htrimmed⟩ := trimmed_escapeChar hc
      rw [List.rdropWhile_concat_neg _ _ _ (by simp [hc]), escapeChars_append,
        escapeChars_singleton]
      refine rdropWhile_isBlank_of_getLast? fun d hd => htrimmed.2 d ?_
      rwa [List.getLast?_append_of_ne_nil _ hne] at hd

/-- It does not matter whether a text is trimmed before or after it is escaped. -/
theorem trimChars_escapeChars (cs : List Char) :
    trimChars (escapeChars cs) = escapeChars (trimChars cs) := by
  rw [trimChars_eq, trimChars_eq, dropWhile_escapeChars, rdropWhile_escapeChars]

/-- What is read of an escaped text that has been trimmed is the trimmed text. -/
theorem unescapeChars_trimChars_escapeChars (cs : List Char) :
    unescapeChars (trimChars (escapeChars cs)) = trimChars cs := by
  rw [trimChars_escapeChars, unescapeChars_escapeChars]

end Cutscene.Text
