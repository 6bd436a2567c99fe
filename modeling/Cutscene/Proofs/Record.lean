import Cutscene.Proofs.Number.Digits
import Cutscene.Proofs.Text.Pieces
import Cutscene.Proofs.Text.Trim
import Cutscene.Record

/-!
# Saved records

A record that is saved and loaded comes back as `Record.restored` (`load_fields`), if it is
`Storable`: its numbers are machine words, and its snapshot holds none of the separators. What there
is to say of the saved form, which not every record has and which is not always accepted, is put
together in `load_of_save?`. Whatever is loaded of any text is `Storable` (`storable_of_load`), and
no longer changed by being saved and loaded (`restored_of_load`).
-/

namespace Cutscene

open Number (not_mem_of_numeral numeral_of_mem_nat)

namespace Record

/-- The separators of fields and of records. -/
def separators : List Char := [':', '|']

/-- The text holds no separator. -/
def Unseparated (s : String) : Prop := ∀ separator ∈ separators, separator ∉ s.toList

/-- The numbers of the record are machine words. -/
structure HasWords (r : Record) : Prop where
  start : r.start < UInt64.size
  points : ∀ n ∈ r.resumePoints, n < UInt64.size

/-- The saved form of the record can be read. -/
structure Storable (r : Record) : Prop where
  words : r.HasWords
  parameters : Unseparated r.parameters

/-- The graph of the record is more than blanks. -/
def isNamed (r : Record) : Bool := !(Text.trim r.graph).isEmpty

/-- What comes back of a record that is saved. -/
def restored (r : Record) : Record :=
  { r with
    graph := Text.trim r.graph
    playback := none
    conversation := r.conversation.filter (· ≠ "") }

/-! ### Fields -/

/-- The resume points as a field. -/
def pointsField (points : List Nat) : String := "]".intercalate (points.map toString)

/-- The conversation as a field. -/
def conversationField (conversation : Option String) : String :=
  (conversation.map Text.escape).getD ""

/-- The fields of the saved form. -/
def fields (r : Record) : List String :=
  [Text.escape r.graph, pointsField r.resumePoints, toString r.start, flag r.queued,
    flag r.running, conversationField r.conversation, r.parameters]

theorem save?_eq (r : Record) :
    r.save? = if r.running || r.graph.isEmpty then none else some (":".intercalate r.fields) := rfl

theorem readNumber_text {n : Nat} (h : n < UInt64.size) : readNumber (toString n).toList = n := by
  rw [readNumber, Number.readWord?_text h, Option.getD_some]

theorem readNumber_lt (cs : List Char) : readNumber cs < UInt64.size := by
  unfold readNumber
  cases hread : Number.readWord? cs with
  | none => decide
  | some n => exact Number.lt_of_readWord? hread

theorem toList_pointsField (points : List Nat) :
    (pointsField points).toList = [']'].intercalate (points.map fun n => (toString n).toList) := by
  rw [pointsField, String.toList_intercalate, List.map_map]
  rfl

theorem toList_conversationField (conversation : Option String) :
    (conversationField conversation).toList =
      Text.escapeChars (conversation.getD "").toList := by
  cases conversation with
  | none => rfl
  | some s => exact String.toList_ofList

/-- The resume points are read back. -/
theorem read_pointsField {points : List Nat} (h : ∀ n ∈ points, n < UInt64.size) :
    ((Text.cut ']' (pointsField points).toList).filter (!·.isEmpty)).map readNumber = points := by
  cases points with
  | nil => rfl
  | cons first rest =>
    -- No number has a bracket in it, so the field is cut where it was joined.
    have hbracket : ∀ piece ∈ (first :: rest).map fun n : Nat => (toString n).toList,
        ']' ∉ piece := by
      intro piece hpiece
      obtain ⟨n, -, rfl⟩ := List.mem_map.mp hpiece
      exact not_mem_of_numeral (fun c hc => numeral_of_mem_nat hc) (by decide)
    -- A number has a digit, so no piece is dropped for being empty.
    have hfull : ∀ piece ∈ (first :: rest).map fun n : Nat => (toString n).toList,
        (!piece.isEmpty) = true := by
      intro piece hpiece
      obtain ⟨n, -, rfl⟩ := List.mem_map.mp hpiece
      simp [Nat.toDigits_ne_nil]
    rw [toList_pointsField, Text.cut_intercalate hbracket (List.cons_ne_nil _ _),
      List.filter_eq_self.mpr hfull, List.map_map]
    refine (List.map_congr_left fun n hn => ?_).trans (List.map_id _)
    exact readNumber_text (h n hn)

theorem read_flag (b : Bool) : decide ((flag b).toList = ['1']) = b := by
  cases b <;> decide

/-- A conversation is read back, unless its name is empty. -/
theorem read_conversationField (conversation : Option String) :
    (if (conversationField conversation).toList.isEmpty then none
      else some (String.ofList (Text.unescapeChars (conversationField conversation).toList))) =
      conversation.filter (· ≠ "") := by
  rw [toList_conversationField, Text.unescapeChars_escapeChars]
  cases conversation with
  | none => rfl
  | some s =>
    rw [Option.getD_some, String.ofList_toList]
    by_cases hs : s = ""
    · subst hs
      rfl
    · -- Only the empty text is escaped to nothing.
      have hfull : (Text.escapeChars s.toList).isEmpty = false := by
        refine List.isEmpty_eq_false_iff.mpr fun hnil => hs ?_
        have hback := Text.unescapeChars_escapeChars s.toList
        rw [hnil] at hback
        exact String.toList_eq_nil_iff.mp hback.symm
      rw [hfull, Option.filter_some_pos (by simpa using hs)]
      rfl

/-- No field holds a separator. -/
theorem not_mem_fields {r : Record} (h : r.Storable) {separator : Char}
    (hseparator : separator ∈ separators) {field : String} (hfield : field ∈ r.fields) :
    separator ∉ field.toList := by
  -- What a separator must not be, checked once for all of them.
  have hfree : separators.all (fun c => !c.isDigit && decide (c ∉ Number.signs) &&
      decide (c ≠ ']') && decide (c ∈ Text.delimiters) &&
      [true, false].all fun b => decide (c ∉ (flag b).toList)) = true := by decide
  have hall := List.all_eq_true.mp hfree separator hseparator
  simp only [Bool.and_eq_true, Bool.not_eq_true', decide_eq_true_eq] at hall
  obtain ⟨⟨⟨hnumeral, hbracket⟩, hdelimiter⟩, hflags⟩ := hall
  have hescaped : ∀ cs, separator ∉ Text.escapeChars cs :=
    Text.delimiter_not_mem_escapeChars hdelimiter
  have hnumber : ∀ n : Nat, separator ∉ (toString n).toList := fun n =>
    not_mem_of_numeral (fun c hc => numeral_of_mem_nat hc) hnumeral
  have hflag : ∀ b, separator ∉ (flag b).toList := by
    intro b
    have hb := List.all_eq_true.mp hflags b (by cases b <;> decide)
    exact of_decide_eq_true hb
  simp only [fields, List.mem_cons, List.not_mem_nil, or_false] at hfield
  rcases hfield with rfl | rfl | rfl | rfl | rfl | rfl | rfl
  · rw [Text.escape, String.toList_ofList]
    exact hescaped _
  · rw [toList_pointsField]
    intro hmem
    -- It could only be the bracket between two numbers or a digit.
    rcases Text.mem_intercalate hmem with heq | ⟨piece, hpiece, hc⟩
    · exact hbracket heq
    · obtain ⟨n, -, rfl⟩ := List.mem_map.mp hpiece
      exact hnumber n hc
  · exact hnumber r.start
  · exact hflag r.queued
  · exact hflag r.running
  · rw [toList_conversationField]
    exact hescaped _
  · exact h.parameters separator hseparator

/-! ### Saving and loading -/

theorem toList_intercalate_fields (r : Record) :
    (":".intercalate r.fields).toList = [':'].intercalate (r.fields.map String.toList) :=
  String.toList_intercalate

/-- The fields of a record are read back, but for blanks around its graph and an empty name of a
conversation. -/
theorem load_fields {r : Record} (h : r.Storable) :
    load (":".intercalate r.fields).toList =
      if r.isNamed then (some r.restored, []) else (none, [.recordWithoutGraph]) := by
  have hcut : Text.cut ':' (":".intercalate r.fields).toList = r.fields.map String.toList := by
    rw [toList_intercalate_fields]
    refine Text.cut_intercalate (fun piece hpiece => ?_) (by simp [fields])
    obtain ⟨field, hfield, rfl⟩ := List.mem_map.mp hpiece
    exact not_mem_fields h List.mem_cons_self hfield
  -- The graph is trimmed before it is read back, which comes to the same.
  have hgraph : String.ofList (Text.unescapeChars (Text.trimChars (Text.escape r.graph).toList)) =
      Text.trim r.graph := by
    rw [Text.escape, String.toList_ofList, Text.unescapeChars_trimChars_escapeChars]
    rfl
  unfold load
  rw [hcut]
  simp only [fields, List.map_cons, List.map_nil, List.getD_cons_zero, List.getD_cons_succ,
    hgraph, read_pointsField h.words.points, readNumber_text h.words.start, read_flag,
    read_conversationField, String.ofList_toList]
  by_cases hnamed : (Text.trim r.graph).isEmpty
  · simp [isNamed, hnamed]
  · simp [isNamed, hnamed, restored]

theorem save?_eq_none_iff (r : Record) : r.save? = none ↔ r.running = true ∨ r.graph = "" := by
  rw [save?_eq]
  by_cases h : (r.running || r.graph.isEmpty) = true
  · rw [if_pos h]
    simpa using h
  · rw [if_neg h]
    simpa using h

theorem eq_of_save?_eq_some {r : Record} {text : String} (h : r.save? = some text) :
    ":".intercalate r.fields = text := by
  rw [save?_eq] at h
  split at h
  · simp at h
  · exact Option.some.inj h

/-- The saved form can stand among others. -/
theorem pipe_not_mem_saved {r : Record} (h : r.Storable) :
    '|' ∉ (":".intercalate r.fields).toList := by
  rw [toList_intercalate_fields]
  intro hmem
  rcases Text.mem_intercalate hmem with heq | ⟨piece, hpiece, hc⟩
  · exact absurd heq (by decide)
  · obtain ⟨field, hfield, rfl⟩ := List.mem_map.mp hpiece
    exact not_mem_fields h (List.mem_cons_of_mem _ List.mem_cons_self) hfield hc

theorem isNamed_eq_false_iff (r : Record) :
    r.isNamed = false ↔ ∀ c ∈ r.graph.toList, Text.isBlank c = true := by
  rw [← Text.trimChars_eq_nil_iff, isNamed, Text.trim]
  simp

theorem filter_ne_empty (conversation : Option String) : conversation.filter (· ≠ "") =
    if conversation = some "" then none else conversation := by
  cases conversation with
  | none => rfl
  | some s => by_cases hs : s = "" <;> simp [hs]

/-- What a saved record means. There is no saved form exactly if the record runs or has no graph. If
there is one, it has no separator of records, it is not accepted exactly if the graph is nothing but
blanks, and otherwise it is read as the record itself, but for the playback, for blanks around the
graph, and for an empty conversation, which is none. -/
theorem load_of_save? {r : Record} (h : r.Storable) :
    (r.save? = none ↔ r.running = true ∨ r.graph = "") ∧
      ∀ text, r.save? = some text →
        '|' ∉ text.toList ∧
        ((load text.toList).1 = none ↔ ∀ c ∈ r.graph.toList, Text.isBlank c = true) ∧
        ((∃ c ∈ r.graph.toList, Text.isBlank c = false) →
          load text.toList = (some
            { graph := Text.trim r.graph
              playback := none
              queued := r.queued
              running := r.running
              resumePoints := r.resumePoints
              start := r.start
              conversation := if r.conversation = some "" then none else r.conversation
              parameters := r.parameters }, [])) := by
  refine ⟨r.save?_eq_none_iff, fun text htext => ?_⟩
  obtain rfl := eq_of_save?_eq_some htext
  have hload := load_fields h
  refine ⟨pipe_not_mem_saved h, ?_, fun hsome => ?_⟩
  · rw [← isNamed_eq_false_iff, hload]
    cases r.isNamed <;> simp
  · have hnamed : r.isNamed = true := by
      -- A graph with anything but blanks in it is named.
      obtain ⟨c, hc, hblank⟩ := hsome
      refine Bool.of_not_eq_false fun hnot => ?_
      rw [(isNamed_eq_false_iff r).mp hnot c hc] at hblank
      exact Bool.noConfusion hblank
    rw [hload, if_pos hnamed, restored, filter_ne_empty]

/-- Blanks around a graph that looks like tokens, the greatest of all indices, and a conversation of
delimiters. -/
theorem load_of_save?_delimited :
    let r : Record :=
      { graph := "\tsquare *PIPE**: ", playback := some 3, queued := true,
        resumePoints := [18446744073709551615, 0], start := 7, conversation := some "*;|:]",
        parameters := "1=*STAR*;2=]" }
    r.Storable ∧ ∃ text, r.save? = some text ∧ '|' ∉ text.toList ∧
      load text.toList = (some { r with graph := "square *PIPE**:", playback := none }, []) := by
  intro r
  have hfree : separators.all (fun c => decide (c ∉ r.parameters.toList)) = true := by decide
  have hstorable : r.Storable :=
    { words :=
        { start := by decide
          points :=
            List.forall_mem_cons.mpr ⟨by decide, List.forall_mem_singleton.mpr (by decide)⟩ }
      parameters := fun separator h => of_decide_eq_true (List.all_eq_true.mp hfree separator h) }
  obtain ⟨hnone, hsaved⟩ := load_of_save? hstorable
  obtain ⟨text, htext⟩ : ∃ text, r.save? = some text :=
    Option.ne_none_iff_exists'.mp fun h => absurd (hnone.mp h) (by decide)
  obtain ⟨hpipe, -, hload⟩ := hsaved text htext
  have hgraph : Text.trim r.graph = "square *PIPE**:" := by decide
  have hconversation : (if r.conversation = some "" then none else r.conversation) =
      r.conversation := if_neg (by decide)
  rw [hgraph, hconversation] at hload
  exact ⟨hstorable, text, htext, hpipe, hload ⟨'s', by decide, by decide⟩⟩

/-! ### What can be loaded -/

/-- A field that is read holds no separator that the text does not hold. -/
theorem mem_of_mem_field {cs : List Char} {i : Nat} {c : Char}
    (h : c ∈ (Text.cut ':' cs).getD i []) : c ∈ cs ∧ c ≠ ':' := by
  rw [List.getD_eq_getElem?_getD] at h
  cases hfield : (Text.cut ':' cs)[i]? with
  | none =>
    rw [hfield] at h
    exact absurd h List.not_mem_nil
  | some field =>
    rw [hfield] at h
    exact Text.mem_of_mem_cut (List.mem_of_getElem? hfield) h

/-- What is read of a field for a conversation is no empty name. -/
theorem filter_conversation (cs : List Char) :
    (if cs.isEmpty then none else some (String.ofList (Text.unescapeChars cs))).filter (· ≠ "") =
      if cs.isEmpty then none else some (String.ofList (Text.unescapeChars cs)) := by
  by_cases hcs : cs.isEmpty
  · simp [hcs]
  · have hfull : String.ofList (Text.unescapeChars cs) ≠ "" := by
      intro hempty
      refine hcs (List.isEmpty_iff.mpr (Text.unescapeChars_eq_nil ?_))
      rw [← String.toList_ofList (l := Text.unescapeChars cs), hempty]
      rfl
    simp [hcs, hfull]

/-- A graph that is read is trimmed. -/
theorem trim_graph (cs : List Char) :
    Text.trim (String.ofList (Text.unescapeChars (Text.trimChars cs))) =
      String.ofList (Text.unescapeChars (Text.trimChars cs)) := by
  have htrimmed := (Text.trimmed_trimChars cs).unescapeChars
  rw [Text.trim, String.toList_ofList, htrimmed.trimChars_eq]

theorem storable_of_load {cs : List Char} {r : Record} (h : (load cs).1 = some r)
    (hpipe : '|' ∉ cs) : r.Storable := by
  unfold load at h
  dsimp only at h
  split at h
  · simp at h
  · obtain rfl := Option.some.inj h
    refine ⟨⟨readNumber_lt _, fun n hn => ?_⟩, fun separator hseparator hmem => ?_⟩
    · obtain ⟨piece, -, rfl⟩ := List.mem_map.mp hn
      exact readNumber_lt piece
    · rw [String.toList_ofList] at hmem
      obtain ⟨hcs, hcolon⟩ := mem_of_mem_field hmem
      simp only [separators, List.mem_cons, List.not_mem_nil, or_false] at hseparator
      rcases hseparator with rfl | rfl
      · exact hcolon rfl
      · exact hpipe hcs

theorem restored_of_load {cs : List Char} {r : Record} (h : (load cs).1 = some r) :
    r.restored = r ∧ r.isNamed = true := by
  unfold load at h
  dsimp only at h
  split at h
  · simp at h
  · rename_i hgraph
    obtain rfl := Option.some.inj h
    constructor
    · unfold restored
      dsimp only
      rw [trim_graph, filter_conversation]
    · unfold isNamed
      dsimp only
      rw [trim_graph]
      simpa using hgraph

end Record

end Cutscene
