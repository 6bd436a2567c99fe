import Cutscene.Proofs.Number.Digits
import Cutscene.Proofs.Text.Replace
import Cutscene.ParameterSet
import Mathlib.Data.List.Induction
import Mathlib.Data.List.Nodup

/-!
# Marks in a text

`ParameterSet.fill` makes one pass over the text for each parameter, and a pass finds what the
passes before it have put there. So it gives every mark that the text itself has the literal of its
parameter, whatever the order of the parameters, as long as no pass meets marks that only came up on
the way (`MeetsOwnMarks`). What a mark becomes otherwise can be told where brackets are not nested
(`Unnested`): its parameter's literal, in which the parameters that come later are filled in.
`fill_eq_substitute` puts this together.
-/

namespace Cutscene.ParameterSet

/-- The mark of a parameter, in characters. -/
def mark (p : Parameter) : List Char := (token p).toList

/-- The text in which every mark that it has for a parameter of the set gives way to a value, and
everything else stays. -/
def substituteBy (s : ParameterSet) (value : Parameter → String) (text : String) : String :=
  .ofList (Text.render (fun p => (value p).toList) (Text.pieces mark s.items text.toList))

/-- The text in which every mark that it has gives way to the literal of its parameter. -/
def substitute (s : ParameterSet) (text : String) : String := s.substituteBy (·.value.literal) text

/-- When it is a parameter's turn, there are no more marks of it than the text has itself. -/
def MeetsOwnMarks (s : ParameterSet) (text : String) : Prop :=
  ∀ before p after, s.items = before ++ p :: after →
    Text.occurrences (mark p) ((⟨before⟩ : ParameterSet).fill text).toList ≤
      Text.occurrences (mark p) text.toList

/-- No bracket of the text is opened inside another. -/
def Unnested (text : String) : Prop := Text.openAfter? false text.toList ≠ none

/-- Nor is one in a literal, and none stays open there. -/
def ClosedLiterals (s : ParameterSet) : Prop :=
  ∀ p ∈ s.items, Text.openAfter? false p.value.literal.toList = some false

/-! ### Marks -/

theorem bracketed_mark (p : Parameter) : Text.Bracketed (mark p) := by
  have hnumeral : ∀ c ∈ (toString p.id.toInt).toList, Number.Numeral c := fun c hc =>
    Number.numeral_of_mem_int hc
  refine ⟨"param:".toList ++ (toString p.id.toInt).toList, by simp [mark, token], ?_, ?_⟩
  · rw [List.mem_append]
    rintro (h | h)
    · exact absurd h (by decide)
    · exact Number.not_mem_of_numeral hnumeral (by decide) h
  · rw [List.mem_append]
    rintro (h | h)
    · exact absurd h (by decide)
    · exact Number.not_mem_of_numeral hnumeral (by decide) h

theorem id_eq_of_mark_eq {p q : Parameter} (h : mark p = mark q) : p.id = q.id := by
  have htext : (toString p.id.toInt).toList = (toString q.id.toInt).toList := by
    simpa [mark, token] using h
  have hread := congrArg Number.readInt32? htext
  rw [Number.readInt32?_text, Number.readInt32?_text] at hread
  exact Option.some.inj hread

theorem mark_injOn {items : List Parameter} (hids : (items.map (·.id)).Nodup) :
    ∀ p ∈ items, ∀ q ∈ items, mark p = mark q → p = q := fun _ hp _ hq h =>
  List.inj_on_of_nodup_map hids hp hq (id_eq_of_mark_eq h)

/-- A parameter's mark is none of those of the parameters before it. -/
theorem mark_ne {items before after : List Parameter} {p q : Parameter}
    (hids : (items.map (·.id)).Nodup) (hitems : items = before ++ p :: after) (hq : q ∈ before) :
    mark q ≠ mark p := by
  intro hmark
  rw [hitems, List.map_append, List.map_cons] at hids
  refine List.disjoint_of_nodup_append hids (List.mem_map_of_mem hq) ?_
  rw [id_eq_of_mark_eq hmark]
  exact List.mem_cons_self

/-! ### One pass after the other -/

/-- `fill`, in characters. -/
def fillChars (items : List Parameter) (cs : List Char) : List Char :=
  items.foldl (fun cs p => Text.replaceChars (mark p) p.value.literal.toList cs) cs

theorem toList_fill (s : ParameterSet) (text : String) :
    (s.fill text).toList = fillChars s.items text.toList := by
  obtain ⟨items⟩ := s
  change (items.foldl _ text).toList = _
  induction items generalizing text with
  | nil => rfl
  | cons p rest ih =>
    rw [List.foldl_cons, ih, Text.replace, String.toList_ofList]
    rfl

theorem fillChars_append (before after : List Parameter) (cs : List Char) :
    fillChars (before ++ after) cs = fillChars after (fillChars before cs) := List.foldl_append

/-- Passes that meet no marks change nothing. -/
theorem fillChars_eq_self {items : List Parameter} {cs : List Char}
    (h : ∀ p ∈ items, Text.occurrences (mark p) cs = 0) : fillChars items cs = cs := by
  induction items with
  | nil => rfl
  | cons p rest ih =>
    have hpass : Text.replaceChars (mark p) p.value.literal.toList cs = cs :=
      Text.replaceChars_eq_self (h p List.mem_cons_self)
    rw [fillChars, List.foldl_cons, hpass]
    exact ih fun q hq => h q (List.mem_cons_of_mem p hq)

theorem fill_eq_self {s : ParameterSet} {text : String}
    (h : ∀ p ∈ s.items, Text.occurrences (mark p) text.toList = 0) : s.fill text = text := by
  refine String.toList_inj.mp ?_
  rw [toList_fill]
  exact fillChars_eq_self h

/-- In the place of a mark comes the literal, and the later parameters are filled into it. -/
theorem fillChars_mark {items before after : List Parameter} {p : Parameter}
    (hids : (items.map (·.id)).Nodup) (hitems : items = before ++ p :: after) :
    fillChars items (mark p) = fillChars after p.value.literal.toList := by
  have hbefore : fillChars before (mark p) = mark p := by
    refine fillChars_eq_self fun q hq => ?_
    exact (bracketed_mark q).occurrences_eq_zero (bracketed_mark p) (mark_ne hids hitems hq)
  have hpass : Text.replaceChars (mark p) p.value.literal.toList (mark p) =
      p.value.literal.toList := Text.replaceChars_word (bracketed_mark p).ne_nil
  rw [hitems, fillChars_append, hbefore]
  exact congrArg (fillChars after) hpass

/-- What stands for a parameter after the turns of some: its literal if it is one of them, its mark
otherwise. -/
def valueAfter (before : List Parameter) (p : Parameter) : List Char :=
  if p ∈ before then p.value.literal.toList else mark p

theorem valueAfter_concat (before : List Parameter) (p : Parameter) :
    valueAfter (before ++ [p]) =
      Function.update (valueAfter before) p p.value.literal.toList := by
  funext q
  rw [Function.update_apply, valueAfter, valueAfter]
  by_cases hq : q = p
  · simp [hq]
  · simp [hq]

/-! ### What each mark becomes -/

section Fill

variable {s : ParameterSet} (hids : (s.items.map (·.id)).Nodup) {text : String}

include hids

theorem pieces_text : Text.render mark (Text.pieces mark s.items text.toList) = text.toList :=
  Text.render_pieces (fun p _ => bracketed_mark p) (mark_injOn hids) _

/-- The order of the parameters is nothing to `substituteBy`. -/
theorem substituteBy_perm {s' : ParameterSet} (hperm : s'.items.Perm s.items)
    (value : Parameter → String) : s'.substituteBy value text = s.substituteBy value text := by
  rw [substituteBy, substituteBy,
    Text.pieces_perm (fun p _ => bracketed_mark p) (mark_injOn hids) hperm]

/-- After some passes that met no other marks than the text's own, those of the parameters that had
their turn have given way to literals, and no others. -/
theorem fillChars_before (hown : s.MeetsOwnMarks text) (before after : List Parameter)
    (hitems : s.items = before ++ after) : fillChars before text.toList =
      Text.render (valueAfter before) (Text.pieces mark s.items text.toList) := by
  induction before using List.reverseRecOn generalizing after with
  | nil => exact (pieces_text hids).symm
  | append_singleton before p ih =>
    have hitems' : s.items = before ++ p :: after := by simpa using hitems
    have hbefore := ih (p :: after) hitems'
    have hp : p ∈ s.items := by simp [hitems']
    -- It has not been the turn of `p` yet.
    have hmark : mark p = valueAfter before p :=
      (if_neg fun hmem => mark_ne hids hitems' hmem rfl).symm
    have hcount := Text.occurrences_eq_count (fun p _ => bracketed_mark p) (mark_injOn hids) hp
      text.toList
    have hle := hown before p after hitems'
    rw [toList_fill, hbefore, hcount, hmark] at hle
    rw [fillChars_append, hbefore, valueAfter_concat]
    change Text.replaceChars (mark p) _ _ = _
    rw [hmark]
    exact Text.replaceChars_render (hmark ▸ (bracketed_mark p).ne_nil) hle

/-- Values count only for the parameters of the set. -/
theorem substituteBy_congr {value value' : Parameter → String}
    (h : ∀ p ∈ s.items, value p = value' p) :
    s.substituteBy value text = s.substituteBy value' text := by
  refine congrArg String.ofList (Text.render_congr fun p hp => congrArg String.toList (h p ?_))
  exact Text.mem_of_mark_mem_pieces (fun p _ => bracketed_mark p) (mark_injOn hids) hp

/-- If no pass meets other marks than the text's own, they all give way at once. -/
theorem fill_of_meetsOwnMarks (hown : s.MeetsOwnMarks text) : s.fill text = s.substitute text := by
  have hvalues : Text.render (valueAfter s.items) (Text.pieces mark s.items text.toList) =
      Text.render (fun p => p.value.literal.toList) (Text.pieces mark s.items text.toList) := by
    refine Text.render_congr fun p hp => if_pos ?_
    exact Text.mem_of_mark_mem_pieces (fun p _ => bracketed_mark p) (mark_injOn hids) hp
  refine String.toList_inj.mp ?_
  rw [toList_fill, fillChars_before hids hown s.items [] (List.append_nil _).symm, hvalues]
  exact String.toList_ofList.symm

/-- Where brackets are not nested, a mark becomes the same wherever it stands. -/
theorem fillChars_render (hclosed : s.ClosedLiterals) (htext : Unnested text)
    {items : List Parameter} (hitems : items ⊆ s.items) {value : Parameter → List Char}
    (hvalue : ∀ q ∈ s.items, Text.openAfter? false (value q) = some false) :
    fillChars items (Text.render value (Text.pieces mark s.items text.toList)) =
      Text.render (fun q => fillChars items (value q))
        (Text.pieces mark s.items text.toList) := by
  induction items generalizing value with
  | nil => rfl
  | cons p rest ih =>
    obtain ⟨hp, hrest⟩ := List.cons_subset.mp hitems
    change fillChars rest (Text.replaceChars (mark p) _ _) = _
    rw [Text.replaceChars_render_of_brackets (fun q _ => bracketed_mark q) (mark_injOn hids) hp
      hvalue text.toList false htext]
    refine ih hrest fun q hq => ?_
    exact (bracketed_mark p).openAfter?_replaceChars (hclosed p hp) (hvalue q hq)

theorem fill_of_unnested (hclosed : s.ClosedLiterals) (htext : Unnested text) :
    s.fill text = s.substituteBy (fun p => s.fill (token p)) text := by
  refine String.toList_inj.mp ?_
  have hmarks : ∀ q ∈ s.items, Text.openAfter? false (mark q) = some false := by
    intro q _
    rw [(bracketed_mark q).openAfter?_eq]
    rfl
  have hall := fillChars_render hids hclosed htext (List.Subset.refl s.items) hmarks
  rw [pieces_text hids] at hall
  rw [toList_fill, hall, substituteBy, String.toList_ofList]
  simp only [toList_fill]
  rfl

theorem fill_token {before after : List Parameter} {p : Parameter}
    (hitems : s.items = before ++ p :: after) :
    s.fill (token p) = (⟨after⟩ : ParameterSet).fill p.value.literal := by
  refine String.toList_inj.mp ?_
  rw [toList_fill, toList_fill]
  exact fillChars_mark hids hitems

/-- A mark alone. -/
theorem substitute_token {p : Parameter} (hp : p ∈ s.items) :
    s.substitute (token p) = p.value.literal := by
  have hpieces : Text.pieces mark s.items (mark p) = [.mark p] := by
    have hword := Text.pieces_word_append (fun p _ => bracketed_mark p) (mark_injOn hids) hp []
    rw [List.append_nil] at hword
    exact hword
  change String.ofList (Text.render _ (Text.pieces mark s.items (mark p))) = _
  rw [hpieces]
  change String.ofList (p.value.literal.toList ++ []) = _
  rw [List.append_nil, String.ofList_toList]

theorem fill_eq_substitute_of_later (hclosed : s.ClosedLiterals)
    (hlater : ∀ before p after, s.items = before ++ p :: after →
      (⟨after⟩ : ParameterSet).fill p.value.literal = p.value.literal) (htext : Unnested text) :
    s.fill text = s.substitute text := by
  rw [fill_of_unnested hids hclosed htext]
  refine substituteBy_congr hids fun p hp => ?_
  obtain ⟨before, after, hitems⟩ := List.append_of_mem hp
  rw [fill_token hids hitems]
  exact hlater before p after hitems

end Fill

theorem unnested_token (p : Parameter) : Unnested (token p) := by
  change Text.openAfter? false (mark p) ≠ none
  rw [(bracketed_mark p).openAfter?_eq]
  simp

/-- For parameters with different ids:

- `fill` puts literals for the marks of the text itself and leaves everything else, whatever the
  order of the parameters, provided no pass meets marks that only came up on the way;
- in a text without nested brackets, with literals that close their own, each mark becomes what it
  becomes alone;
- alone it becomes its parameter's literal with the later parameters filled in;
- so the literals go into all these texts as they are exactly if to fill the later parameters into
  each leaves it as it is;
- and they do in any order of the parameters if they hold no marks. -/
theorem fill_eq_substitute (s : ParameterSet) (hids : (s.items.map (·.id)).Nodup) :
    (∀ (s' : ParameterSet) (text : String), s'.items.Perm s.items → s'.MeetsOwnMarks text →
      s'.fill text = s.substitute text) ∧
    (∀ text, s.ClosedLiterals → Unnested text →
      s.fill text = s.substituteBy (fun p => s.fill (token p)) text) ∧
    (∀ before p after, s.items = before ++ p :: after →
      s.fill (token p) = (⟨after⟩ : ParameterSet).fill p.value.literal) ∧
    (s.ClosedLiterals → ((∀ text, Unnested text → s.fill text = s.substitute text) ↔
      ∀ before p after, s.items = before ++ p :: after →
        (⟨after⟩ : ParameterSet).fill p.value.literal = p.value.literal)) ∧
    (s.ClosedLiterals → (∀ p ∈ s.items, ∀ q ∈ s.items,
      Text.occurrences (mark q) p.value.literal.toList = 0) →
        ∀ (s' : ParameterSet) (text : String), s'.items.Perm s.items → Unnested text →
          s'.fill text = s.substitute text) := by
  refine ⟨?_, fun text => fill_of_unnested hids, fun _ _ _ => fill_token hids, ?_, ?_⟩
  · intro s' text hperm hown
    have hids' : (s'.items.map (·.id)).Nodup := (hperm.map (·.id)).nodup_iff.mpr hids
    rw [fill_of_meetsOwnMarks hids' hown]
    exact substituteBy_perm hids hperm _
  · intro hclosed
    constructor
    · intro hall before p after hitems
      have hp : p ∈ s.items := by simp [hitems]
      -- The text that is the mark alone tells what becomes of the literal.
      rw [← fill_token hids hitems, hall (token p) (unnested_token p), substitute_token hids hp]
    · intro hlater text htext
      exact fill_eq_substitute_of_later hids hclosed hlater htext
  · intro hclosed hnone s' text hperm htext
    have hids' : (s'.items.map (·.id)).Nodup := (hperm.map (·.id)).nodup_iff.mpr hids
    have hclosed' : s'.ClosedLiterals := fun p hp => hclosed p (hperm.mem_iff.mp hp)
    have hsame : s'.substitute text = s.substitute text := substituteBy_perm hids hperm _
    refine (fill_eq_substitute_of_later hids' hclosed' ?_ htext).trans hsame
    -- In any order the later parameters have none of their marks in the literal.
    intro before p after hitems
    refine fill_eq_self fun q hq => hnone p (hperm.mem_iff.mp ?_) q (hperm.mem_iff.mp ?_)
    · simp [hitems]
    · rw [hitems]
      exact List.mem_append_right before (List.mem_cons_of_mem p hq)

/-- A parameter whose literal is the mark of the next. -/
def chained : ParameterSet := ⟨[⟨1, "", .string "[param:2]"⟩, ⟨2, "", .string "x"⟩]⟩

/-- The same parameters, the other way round. -/
def unchained : ParameterSet := ⟨[⟨2, "", .string "x"⟩, ⟨1, "", .string "[param:2]"⟩]⟩

theorem unchained_perm : unchained.items.Perm chained.items := List.Perm.swap _ _ _

theorem meetsOwnMarks_unchained : unchained.MeetsOwnMarks "[param:1]" := by
  intro before p after hitems
  obtain _ | ⟨q, before⟩ := before
  · exact Nat.le_refl _
  · obtain ⟨rfl, hrest⟩ := List.cons.inj hitems
    obtain _ | ⟨q, before⟩ := before
    · obtain ⟨rfl, -⟩ := List.cons.inj hrest
      decide
    · simp at hrest

/-- The literal of the first parameter stays where the second has had its turn before, but not where
its turn comes after. -/
theorem fill_eq_substitute_chained :
    unchained.fill "[param:1]" = "[param:2]" ∧ chained.substitute "[param:1]" = "[param:2]" ∧
      chained.fill "[param:1]" = "x" := by
  have hids : (chained.items.map (·.id)).Nodup := by decide
  obtain ⟨hown, -, halone, -, -⟩ := fill_eq_substitute chained hids
  have hsubstitute : chained.substitute "[param:1]" = "[param:2]" := by decide
  refine ⟨?_, hsubstitute, ?_⟩
  · rw [hown unchained "[param:1]" unchained_perm meetsOwnMarks_unchained]
    exact hsubstitute
  · have hlater := halone [] _ _ rfl
    have htoken : token ⟨1, "", .string "[param:2]"⟩ = "[param:1]" := by decide
    rw [htoken] at hlater
    rw [hlater]
    decide

end Cutscene.ParameterSet
