import Cutscene.Text.Escape

/-!
# Escaping and reading back

An escaped text reads back to the text (`unescapeChars_escapeChars`), whatever stands behind it
(`unescapeChars_escapeChars_append`), and holds no delimiter (`delimiter_not_mem_escapeChars`). So
escaped texts can be told from each other, from what separates them, and from what follows them
(`escape_faithful`).
-/

namespace Cutscene.Text

/-- What separates the fields of a record, the parameters in a field, and the records. -/
def delimiters : List Char := [':', ';', '|']

theorem escapeChar_of_plain {c : Char} (hstar : c ≠ '*') (hdelimiter : c ∉ delimiters) :
    escapeChar c = [c] := by
  simp only [delimiters, List.mem_cons, List.not_mem_nil, or_false, not_or] at hdelimiter
  obtain ⟨hcolon, hsemicolon, hpipe⟩ := hdelimiter
  rw [escapeChar, if_neg hstar, if_neg hcolon, if_neg hpipe, if_neg hsemicolon]

/-- The star is the only character that a token can begin with. -/
theorem unescapeChars_cons {c : Char} (h : c ≠ '*') (rest : List Char) :
    unescapeChars (c :: rest) = c :: unescapeChars rest := by
  rw [unescapeChars] <;> simp [h]

theorem unescapeChars_escapeChar_append (c : Char) (rest : List Char) :
    unescapeChars (escapeChar c ++ rest) = c :: unescapeChars rest := by
  by_cases hstar : c = '*'
  · subst hstar
    exact unescapeChars.eq_1 rest
  · by_cases hdelimiter : c ∈ delimiters
    · simp only [delimiters, List.mem_cons, List.not_mem_nil, or_false] at hdelimiter
      rcases hdelimiter with rfl | rfl | rfl
      · exact unescapeChars.eq_2 rest
      · exact unescapeChars.eq_4 rest
      · exact unescapeChars.eq_3 rest
    · rw [escapeChar_of_plain hstar hdelimiter]
      exact unescapeChars_cons hstar rest

/-- Reading gets through an escaped text without a look at what stands behind it. -/
theorem unescapeChars_escapeChars_append (cs rest : List Char) :
    unescapeChars (escapeChars cs ++ rest) = cs ++ unescapeChars rest := by
  induction cs with
  | nil => rfl
  | cons c cs ih =>
    rw [escapeChars, List.flatMap_cons, List.append_assoc, unescapeChars_escapeChar_append]
    exact congrArg (c :: ·) ih

/-- An escaped text reads back to the text. -/
theorem unescapeChars_escapeChars (cs : List Char) : unescapeChars (escapeChars cs) = cs := by
  have hread := unescapeChars_escapeChars_append cs []
  rwa [List.append_nil, unescapeChars, List.append_nil] at hread

/-- An escaped text holds no delimiter. -/
theorem delimiter_not_mem_escapeChars {d : Char} (hd : d ∈ delimiters) (cs : List Char) :
    d ∉ escapeChars cs := by
  have htokens : (('*' :: delimiters).all fun c => delimiters.all fun d =>
      decide (d ∉ escapeChar c)) = true := by decide
  simp only [List.all_eq_true, decide_eq_true_eq] at htokens
  rw [escapeChars, List.mem_flatMap]
  rintro ⟨c, -, hc⟩
  by_cases hstar : c = '*'
  · exact htokens c (hstar ▸ List.mem_cons_self) d hd hc
  · by_cases hdelimiter : c ∈ delimiters
    · exact htokens c (List.mem_cons_of_mem _ hdelimiter) d hd hc
    · rw [escapeChar_of_plain hstar hdelimiter, List.mem_singleton] at hc
      exact hdelimiter (hc ▸ hd)

/-! ### Texts -/

theorem toList_escape (s : String) : (escape s).toList = escapeChars s.toList :=
  String.toList_ofList

/-- What follows an escaped text is read as if it stood alone. -/
theorem unescape_escape_append (s t : String) : unescape (escape s ++ t) = s ++ unescape t := by
  refine String.toList_inj.mp ?_
  rw [unescape, String.toList_ofList, String.toList_append, toList_escape,
    unescapeChars_escapeChars_append, String.toList_append, unescape, String.toList_ofList]

/-- An escaped text reads back to the text. -/
theorem unescape_escape (s : String) : unescape (escape s) = s := by
  rw [unescape, toList_escape, unescapeChars_escapeChars, String.ofList_toList]

theorem delimiter_not_mem_escape {d : Char} (hd : d ∈ delimiters) (s : String) :
    d ∉ (escape s).toList := by
  rw [toList_escape]
  exact delimiter_not_mem_escapeChars hd s.toList

/-- Escaping is a code without delimiters: an escaped text holds none of them, it reads back to the
text, no two texts are escaped in the same way, and no token is made of the end of an escaped text
and what follows it. -/
theorem escape_faithful (s : String) :
    (':' ∉ (escape s).toList ∧ '|' ∉ (escape s).toList ∧ ';' ∉ (escape s).toList) ∧
      unescape (escape s) = s ∧
      (∀ t, escape t = escape s → t = s) ∧
      ∀ t, unescape (escape s ++ t) = s ++ unescape t := by
  have hfree : ∀ d ∈ delimiters, d ∉ (escape s).toList := fun d hd => delimiter_not_mem_escape hd s
  refine ⟨⟨hfree ':' (by decide), hfree '|' (by decide), hfree ';' (by decide)⟩,
    unescape_escape s, fun t ht => ?_, unescape_escape_append s⟩
  calc t = unescape (escape t) := (unescape_escape t).symm
    _ = unescape (escape s) := congrArg unescape ht
    _ = s := unescape_escape s

example : escape "**PIPE*:" = "*STAR**STAR*PIPE*STAR**COLON*" := by decide

end Cutscene.Text
