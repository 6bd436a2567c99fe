import Cutscene.Proofs.Number.Text
import Cutscene.Proofs.ParameterSet.Restore
import Cutscene.Proofs.Text.Escape
import Cutscene.Proofs.Text.Pieces

/-!
# Snapshots of parameters

A value of any kind is read back from its literal (`Parameter.Value.read_literal`), and an entry of
a snapshot as what it was written for (`ParameterSet.readEntry_entry`). So the entries of one set
let another set adopt its values (`ParameterSet.restoreEntries_entries`): a set restores itself
(`ParameterSet.restore_snapshot`), and a snapshot carries all values over to any set with the same
ids and kinds (`ParameterSet.snapshot_carries_values`).
-/

namespace Cutscene

open Number (Numeral not_mem_of_numeral numeral_of_mem_int numeral_of_mem_singleText)

/-! ### Numbers among separators -/

theorem isBlank_of_numeral {c : Char} (h : Numeral c) : Text.isBlank c = false := by
  rcases h with h | h
  · obtain ⟨hlow, hhigh⟩ := Number.isDigit_iff.mp h
    have hlow' : 48 ≤ c.toNat := hlow
    have hhigh' : c.toNat ≤ 57 := hhigh
    simp only [Text.isBlank]
    simp
    omega
  · have hsigns : (Number.signs.all fun c => !Text.isBlank c) = true := by decide
    simpa using List.all_eq_true.mp hsigns c h

theorem trimChars_of_numeral {cs : List Char} (h : ∀ c ∈ cs, Numeral c) : Text.trimChars cs = cs :=
  Text.trimChars_eq_self fun c hc => isBlank_of_numeral (h c hc)

theorem readCoordinate_singleText (x : Float32) :
    Vector3.readCoordinate (Number.singleText x).toList = x := by
  rw [Vector3.readCoordinate, trimChars_of_numeral fun c hc => numeral_of_mem_singleText hc,
    String.ofList_toList, Number.readSingle?_singleText, Option.getD_some]

/-- A vector is read back from its text. -/
theorem Vector3.read_text (v : Vector3) : Vector3.read v.text = v := by
  have hcomma : ∀ x, ',' ∉ (Number.singleText x).toList := fun x =>
    not_mem_of_numeral (fun c hc => numeral_of_mem_singleText hc) (by decide)
  have htext : v.text.toList = (Number.singleText v.x).toList ++ ',' ::
      ((Number.singleText v.y).toList ++ ',' :: (Number.singleText v.z).toList) := by
    simp [Vector3.text]
  rw [Vector3.read, htext, Text.cut_append (hcomma _), Text.cut_append (hcomma _),
    Text.cut_of_not_mem (hcomma _)]
  simp only [List.map_cons, readCoordinate_singleText]
  rfl

namespace Parameter.Value

theorem readInteger_text (v : Int32) : readInteger (toString v.toInt) = v := by
  rw [readInteger, trimChars_of_numeral fun c hc => numeral_of_mem_int hc, Number.readInt32?_text,
    Option.getD_some]

/-- A value is read back from its literal. -/
theorem read_literal (v : Value) : read v.kind v.literal = v := by
  cases v with
  | integer v | popUp v | gameObject v | globalVariable v | localVariable v | inventoryItem v
  | document v => simp only [kind, literal, read, readInteger_text]
  | float v => exact congrArg Value.float (readCoordinate_singleText v)
  | string s | asset s => rfl
  | vector v => exact congrArg Value.vector v.read_text
  | boolean b => cases b <;> exact congrArg Value.boolean (by decide)

end Parameter.Value

namespace ParameterSet

/-! ### Finding -/

/-- Of parameters with different ids, each is found by its id. -/
theorem get?_of_mem {s : ParameterSet} (h : (s.items.map (·.id)).Nodup) {p : Parameter}
    (hp : p ∈ s.items) : s.get? p.id = some p := by
  obtain ⟨items⟩ := s
  change items.find? (·.id = p.id) = some p
  induction items with
  | nil => exact absurd hp List.not_mem_nil
  | cons q rest ih =>
    rw [List.map_cons, List.nodup_cons] at h
    rcases List.mem_cons.mp hp with rfl | hp
    · exact List.find?_cons_of_pos (by simp)
    · have hne : q.id ≠ p.id := fun heq => h.1 (List.mem_map.mpr ⟨p, hp, heq.symm⟩)
      rw [List.find?_cons_of_neg (by simpa using hne)]
      exact ih h.2 hp

/-! ### Entries -/

theorem toList_entry (p : Parameter) :
    (entry p).toList =
      (toString p.id.toInt).toList ++ '=' :: Text.escapeChars p.value.literal.toList := by
  simp [entry, Text.escape]

theorem semicolon_not_mem_entry (p : Parameter) : ';' ∉ (entry p).toList := by
  rw [toList_entry, List.mem_append, List.mem_cons]
  rintro (h | h | h)
  · exact not_mem_of_numeral (fun c hc => numeral_of_mem_int hc) (by decide) h
  · exact absurd h (by decide)
  · exact Text.delimiter_not_mem_escapeChars (by decide) _ h

/-- An entry is read as what it was written for. -/
theorem readEntry_entry (p : Parameter) :
    readEntry (entry p).toList = .ok (p.id, p.value.literal) := by
  have hequals : '=' ∉ (toString p.id.toInt).toList :=
    not_mem_of_numeral (fun c hc => numeral_of_mem_int hc) (by decide)
  rw [readEntry, toList_entry, Text.cutOnce_append hequals]
  dsimp only
  rw [trimChars_of_numeral fun c hc => numeral_of_mem_int hc, Number.readInt32?_text]
  dsimp only
  rw [Text.unescapeChars_escapeChars, String.ofList_toList]

theorem wellFormed_entries (items : List Parameter) :
    wellFormed (items.map fun p => (entry p).toList) =
      items.map fun p => (p.id, p.value.literal) := by
  rw [wellFormed, List.filterMap_map, ← List.filterMap_eq_map]
  refine congrArg (List.filterMap · items) (funext fun p => ?_)
  rw [Function.comp_apply, readEntry_entry]
  rfl

/-- A snapshot holds the entries of all parameters. -/
theorem entries_snapshot (s : ParameterSet) :
    (Text.cut ';' s.snapshot.toList).filter (!·.isEmpty) =
      s.items.map fun p => (entry p).toList := by
  have hjoined : s.snapshot.toList = [';'].intercalate (s.items.map fun p => (entry p).toList) := by
    simp [snapshot, String.toList_intercalate, Function.comp_def]
  cases hitems : s.items with
  | nil =>
    rw [hjoined, hitems]
    rfl
  | cons p rest =>
    rw [hjoined, ← hitems, Text.cut_intercalate]
    · -- No entry is empty: there is the sign between the id and the literal at least.
      refine List.filter_eq_self.mpr fun cs hcs => ?_
      obtain ⟨p, -, rfl⟩ := List.mem_map.mp hcs
      simp [toList_entry]
    · intro cs hcs
      obtain ⟨p, -, rfl⟩ := List.mem_map.mp hcs
      exact semicolon_not_mem_entry p
    · simp [hitems]

/-! ### Values from another set -/

/-- A parameter with the value of the first of some others that has its id, if one has. -/
def adopt (others : List Parameter) (a : Parameter) : Parameter :=
  match others.find? (·.id = a.id) with
  | some p => { a with value := p.value }
  | none => a

variable {s : ParameterSet} {others : List Parameter} {a p q : Parameter}

theorem adopt_of_find? (h : others.find? (·.id = a.id) = some p) :
    adopt others a = { a with value := p.value } := by
  rw [adopt, h]

theorem adopt_id : (adopt others a).id = a.id := by
  rw [adopt]
  split <;> rfl

theorem adopt_label : (adopt others a).label = a.label := by
  rw [adopt]
  split <;> rfl

/-- To read in literals of another set's values adopts the values, if the kinds are the same. -/
theorem settled_eq_adopt (hothers : (others.map (·.id)).Nodup)
    (hkind : ∀ p ∈ others, p.id = a.id → p.kind = a.kind) :
    settled (others.map fun p => (p.id, p.value.literal)) a = adopt others a := by
  have hids : ((others.map fun p => (p.id, p.value.literal)).map (·.1)).Nodup := by
    rwa [List.map_map]
  rw [settled, lastLiteral?_eq_find? hids, List.find?_map, adopt]
  simp only [Function.comp_def, Option.map_map]
  cases hfound : others.find? (·.id = a.id) with
  | none => rfl
  | some p =>
    have hp := hkind p (List.mem_of_find?_eq_some hfound) (by simpa using List.find?_some hfound)
    have hvalue : Parameter.Value.read a.kind p.value.literal = p.value := by
      rw [← hp]
      exact p.value.read_literal
    exact congrArg (fun value => { a with value }) hvalue

/-- The entries of parameters whose ids and kinds a set knows give it their values. -/
theorem restoreEntries_entries (hothers : (others.map (·.id)).Nodup)
    (hs : (s.items.map (·.id)).Nodup)
    (hknown : ∀ p ∈ others, ∃ q, s.get? p.id = some q ∧ q.kind = p.kind) :
    s.restoreEntries (others.map fun p => (entry p).toList) =
      (⟨s.items.map (adopt others)⟩, []) := by
  -- An entry of the same kind is taken over as it is.
  have hadopt : s.items.map (settled (others.map fun p => (p.id, p.value.literal))) =
      s.items.map (adopt others) := by
    refine List.map_congr_left fun a ha => settled_eq_adopt hothers fun p hp hid => ?_
    obtain ⟨q, hq, hkind⟩ := hknown p hp
    rw [hid, get?_of_mem hs ha] at hq
    rw [← hkind, Option.some.inj hq]
  -- Every id is known, so nothing is objected to.
  have hsilent : (others.map fun p => (entry p).toList).filterMap
      (objection? (s.items.map (·.id))) = [] := by
    rw [List.filterMap_map, List.filterMap_eq_nil_iff]
    intro p hp
    obtain ⟨q, hq, -⟩ := hknown p hp
    rw [Function.comp_apply, objection?, readEntry_entry]
    exact if_pos (mem_ids_of_get? hq)
  rw [restoreEntries_eq, wellFormed_entries, giveAll_of_nodup hs, hadopt, hsilent]

/-- A set is restored from its own snapshot. -/
theorem restore_snapshot (h : (s.items.map (·.id)).Nodup) : s.restore s.snapshot = (s, []) := by
  have hown : s.items.map (adopt s.items) = s.items := by
    refine (List.map_congr_left fun a ha => ?_).trans (List.map_id s.items)
    exact adopt_of_find? (get?_of_mem h ha)
  rw [restore, entries_snapshot,
    restoreEntries_entries h h fun p hp => ⟨p, get?_of_mem h hp, rfl⟩, hown]

/-! ### Between sets with the same ids and kinds -/

/-- No entry holds what separates the fields of a record, or records. -/
theorem not_mem_entry {separator : Char} (h : separator ∈ [':', '|']) (p : Parameter) :
    separator ∉ (entry p).toList := by
  have hfree : [':', '|'].all (fun c => !c.isDigit && decide (c ∉ Number.signs) &&
      decide (c ≠ '=') && decide (c ∈ Text.delimiters)) = true := by decide
  have hseparator := List.all_eq_true.mp hfree separator h
  simp only [Bool.and_eq_true, Bool.not_eq_true', decide_eq_true_eq] at hseparator
  obtain ⟨⟨hnumeral, hequals⟩, hdelimiter⟩ := hseparator
  rw [toList_entry, List.mem_append, List.mem_cons]
  rintro (hid | heq | hvalue)
  · exact not_mem_of_numeral (fun c hc => numeral_of_mem_int hc) hnumeral hid
  · exact hequals heq
  · exact Text.delimiter_not_mem_escapeChars hdelimiter _ hvalue

/-- Nor does a snapshot, whose entries are separated in another way. -/
theorem not_mem_snapshot (s : ParameterSet) {separator : Char} (h : separator ∈ [':', '|']) :
    separator ∉ s.snapshot.toList := by
  intro hmem
  have hjoined : s.snapshot.toList = [';'].intercalate ((s.items.map entry).map String.toList) := by
    rw [snapshot, String.toList_intercalate]
    rfl
  rw [hjoined] at hmem
  rcases Text.mem_intercalate hmem with rfl | ⟨piece, hpiece, hc⟩
  · exact absurd h (by decide)
  · obtain ⟨text, htext, rfl⟩ := List.mem_map.mp hpiece
    obtain ⟨p, -, rfl⟩ := List.mem_map.mp htext
    exact not_mem_entry h p hc

/-- A snapshot can be embedded in a saved record, and it carries all values, of whatever kind, over
to any set that has the same ids with the same kinds, in whatever order. -/
theorem snapshot_carries_values (p : ParameterSet) :
    (∀ separator ∈ [':', '|'], separator ∉ p.snapshot.toList) ∧
      ((p.items.map (·.id)).Nodup → ∀ q : ParameterSet,
        (q.items.map fun a => (a.id, a.kind)).Perm (p.items.map fun a => (a.id, a.kind)) →
        ∃ r, q.restore p.snapshot = (r, []) ∧
          (r.items.map fun a => (a.id, a.label, a.kind)) =
            (q.items.map fun a => (a.id, a.label, a.kind)) ∧
          ∀ a ∈ r.items, (p.get? a.id).map (·.value) = some a.value) := by
  refine ⟨fun separator hseparator => p.not_mem_snapshot hseparator, fun hp q hperm => ?_⟩
  have hq : (q.items.map (·.id)).Nodup := by
    have hids := hperm.map Prod.fst
    simp only [List.map_map, Function.comp_def] at hids
    exact hids.nodup_iff.mpr hp
  have hknown : ∀ b ∈ p.items, ∃ a, q.get? b.id = some a ∧ a.kind = b.kind := by
    intro b hb
    obtain ⟨a, ha, heq⟩ := List.mem_map.mp (hperm.mem_iff.mpr (List.mem_map_of_mem hb))
    obtain ⟨hid, hkind⟩ := Prod.mk.inj heq
    exact ⟨a, hid ▸ get?_of_mem hq ha, hkind⟩
  -- The other way round, every parameter of `q` finds its value in `p`.
  have hsource : ∀ a ∈ q.items, ∃ b, p.get? a.id = some b ∧ b.kind = a.kind ∧
      adopt p.items a = { a with value := b.value } := by
    intro a ha
    obtain ⟨b, hb, heq⟩ := List.mem_map.mp (hperm.mem_iff.mp (List.mem_map_of_mem ha))
    obtain ⟨hid, hkind⟩ := Prod.mk.inj heq
    have hfound : p.get? a.id = some b := hid ▸ get?_of_mem hp hb
    exact ⟨b, hfound, hkind, adopt_of_find? hfound⟩
  refine ⟨⟨q.items.map (adopt p.items)⟩, ?_, ?_, ?_⟩
  · rw [restore, entries_snapshot]
    exact restoreEntries_entries hp hq hknown
  · rw [List.map_map]
    refine List.map_congr_left fun a ha => ?_
    obtain ⟨b, -, hkind, hadopt⟩ := hsource a ha
    have hkeeps : (adopt p.items a).kind = a.kind := by
      rw [hadopt]
      exact hkind
    rw [Function.comp_apply, adopt_id, adopt_label, hkeeps]
  · intro a' ha'
    obtain ⟨a, ha, rfl⟩ := List.mem_map.mp ha'
    obtain ⟨b, hfound, -, hadopt⟩ := hsource a ha
    rw [adopt_id, hfound, hadopt]
    rfl

/-- A text of tokens and delimiters, no text at all, and a number, read into a set that has them in
another order and with other values. -/
theorem snapshot_carries_values_of_tokens :
    let p : ParameterSet := ⟨[{ id := 1, value := .string "*STAR*a=b;c:d|**COLON* " },
      { id := -2, value := .asset "" }, { id := 3, value := .popUp 7 }]⟩
    let q : ParameterSet := ⟨[{ id := 3, label := "menu", value := .popUp 0 },
      { id := 1, value := .string "x" }, { id := -2, value := .asset "y" }]⟩
    (p.items.map (·.id)).Nodup ∧
      (q.items.map fun a => (a.id, a.kind)).Perm (p.items.map fun a => (a.id, a.kind)) ∧
      ∃ r, q.restore p.snapshot = (r, []) ∧
        (r.items.map fun a => (a.id, a.label, a.kind)) =
          (q.items.map fun a => (a.id, a.label, a.kind)) ∧
        ∀ a ∈ r.items, (p.get? a.id).map (·.value) = some a.value := by
  intro p q
  have hids : (p.items.map (·.id)).Nodup := by decide
  have hperm :
      (q.items.map fun a => (a.id, a.kind)).Perm (p.items.map fun a => (a.id, a.kind)) := by decide
  exact ⟨hids, hperm, (snapshot_carries_values p).2 hids q hperm⟩

end ParameterSet

end Cutscene
