import Cutscene.ParameterSet

/-!
# Any text as a snapshot

Any text can be applied to a set of parameters. Of its entries those count that are well formed
(`assignments`), and among the ones for the same id the last (`lastLiteral?`). Each is for the first
parameter with its id, which reads the literal as its own kind. So what a text makes of a set can be
told parameter by parameter (`giveAll_cons`), and `restore_takes_last` is read off there.
-/

namespace Cutscene

/-- The parameter with the value that its kind reads in a literal. -/
def Parameter.reread (a : Parameter) (literal : String) : Parameter :=
  { a with value := .read a.kind literal }

@[simp] theorem Parameter.kind_reread (a : Parameter) (literal : String) :
    (a.reread literal).kind = a.kind := Parameter.Value.kind_read a.kind literal

/-- What was read before does not matter. -/
theorem Parameter.reread_reread (a : Parameter) (first second : String) :
    (a.reread first).reread second = a.reread second := by
  rw [Parameter.reread, kind_reread]
  rfl

namespace ParameterSet

/-! ### Well-formed entries -/

/-- The id that stands, blanks aside, before the first equals sign of an entry, and the literal
behind it; or what an entry without one or the other is. -/
def readEntry (entry : List Char) : Except Notice (Int32 × String) :=
  match Text.cutOnce '=' entry with
  | none => .error .entryMalformed
  | some parts =>
    match Number.readInt32? (Text.trimChars parts.1) with
    | none => .error .entryWithoutId
    | some id => .ok (id, .ofList (Text.unescapeChars parts.2))

/-- The ids and literals of the well-formed entries among some. -/
def wellFormed (entries : List (List Char)) : List (Int32 × String) :=
  entries.filterMap fun entry => (readEntry entry).toOption

/-- The ids and literals of the well-formed entries of a text, in order. -/
def assignments (data : String) : List (Int32 × String) :=
  wellFormed ((Text.cut ';' data.toList).filter (!·.isEmpty))

/-- The literal of the last entry for an id. -/
def lastLiteral? (es : List (Int32 × String)) (id : Int32) : Option String :=
  (es.reverse.find? (·.1 = id)).map (·.2)

/-- What there is to say against an entry where there are parameters with these ids. -/
def objection? (ids : List Int32) (entry : List Char) : Option Notice :=
  match readEntry entry with
  | .error notice => some notice
  | .ok e => if e.1 ∈ ids then none else some .entryUnknown

/-! ### The last entry for an id -/

variable {es : List (Int32 × String)}

theorem lastLiteral?_cons (e : Int32 × String) (id : Int32) :
    lastLiteral? (e :: es) id =
      (lastLiteral? es id).or (if e.1 = id then some e.2 else none) := by
  rw [lastLiteral?, lastLiteral?, List.reverse_cons, List.find?_append]
  cases es.reverse.find? (·.1 = id) with
  | some later => rfl
  | none =>
    by_cases hid : e.1 = id
    · simp [hid]
    · simp [hid]

theorem lastLiteral?_of_not_mem {id : Int32} (h : id ∉ es.map (·.1)) :
    lastLiteral? es id = none := by
  refine Option.map_eq_none_iff.mpr (List.find?_eq_none.mpr fun e he hid => h ?_)
  exact List.mem_map.mpr ⟨e, List.mem_reverse.mp he, of_decide_eq_true hid⟩

/-- Of entries for different ids the last one for an id is the only one. -/
theorem lastLiteral?_eq_find? (h : (es.map (·.1)).Nodup) (id : Int32) :
    lastLiteral? es id = (es.find? (·.1 = id)).map (·.2) := by
  induction es with
  | nil => rfl
  | cons e es ih =>
    rw [List.map_cons, List.nodup_cons] at h
    rw [lastLiteral?_cons]
    by_cases hid : e.1 = id
    · rw [lastLiteral?_of_not_mem (hid ▸ h.1), if_pos hid,
        List.find?_cons_of_pos (by simpa using hid)]
      rfl
    · rw [if_neg hid, Option.or_none, ih h.2, List.find?_cons_of_neg (by simpa using hid)]

theorem lastLiteral?_filter_self (id : Int32) :
    lastLiteral? (es.filter (·.1 ≠ id)) id = none := by
  refine lastLiteral?_of_not_mem fun hmem => ?_
  obtain ⟨e, he, hid⟩ := List.mem_map.mp hmem
  exact of_decide_eq_true (List.mem_filter.mp he).2 hid

theorem lastLiteral?_filter_of_ne {id other : Int32} (h : id ≠ other) :
    lastLiteral? (es.filter (·.1 ≠ other)) id = lastLiteral? es id := by
  rw [lastLiteral?, lastLiteral?, ← List.filter_reverse, List.find?_filter]
  congr 2
  funext e
  by_cases hid : e.1 = id
  · simp [hid, h]
  · simp [hid]

/-! ### Giving literals to parameters -/

/-- The first parameter with the id of an entry reads its literal. -/
def give (e : Int32 × String) : List Parameter → List Parameter
  | [] => []
  | a :: rest => if a.id = e.1 then a.reread e.2 :: rest else a :: give e rest

/-- `give` for one entry after the other. -/
def giveAll (es : List (Int32 × String)) (items : List Parameter) : List Parameter :=
  es.foldl (fun items e => give e items) items

/-- The parameter with what it reads in the last entry for its id, if there is one. -/
def settled (es : List (Int32 × String)) (a : Parameter) : Parameter :=
  ((lastLiteral? es a.id).map a.reread).getD a

theorem settled_of_some {a : Parameter} {literal : String}
    (h : lastLiteral? es a.id = some literal) : settled es a = a.reread literal := by
  rw [settled, h]
  rfl

theorem settled_of_none {a : Parameter} (h : lastLiteral? es a.id = none) : settled es a = a := by
  rw [settled, h]
  rfl

/-- Neither the id of a parameter nor its label nor its kind is for an entry to change. -/
theorem settled_keeps (es : List (Int32 × String)) (a : Parameter) :
    (settled es a).id = a.id ∧ (settled es a).label = a.label ∧ (settled es a).kind = a.kind := by
  cases hlast : lastLiteral? es a.id with
  | none =>
    rw [settled_of_none hlast]
    exact ⟨rfl, rfl, rfl⟩
  | some literal =>
    rw [settled_of_some hlast]
    exact ⟨rfl, rfl, a.kind_reread literal⟩

/-- An entry that comes first counts only if there is no later one for the id. -/
theorem settled_cons (e : Int32 × String) (a : Parameter) :
    settled (e :: es) a = settled es (if a.id = e.1 then a.reread e.2 else a) := by
  by_cases hid : a.id = e.1
  · rw [if_pos hid]
    have hkeep : (a.reread e.2).id = a.id := rfl
    rw [settled, settled, hkeep, lastLiteral?_cons, if_pos hid.symm]
    cases lastLiteral? es a.id with
    | none => rfl
    | some later => exact (a.reread_reread e.2 later).symm
  · rw [if_neg hid, settled, settled, lastLiteral?_cons, if_neg (Ne.symm hid), Option.or_none]

theorem settled_filter_self (a : Parameter) : settled (es.filter (·.1 ≠ a.id)) a = a :=
  settled_of_none (lastLiteral?_filter_self a.id)

theorem settled_filter_of_ne {a : Parameter} {id : Int32} (h : a.id ≠ id) :
    settled (es.filter (·.1 ≠ id)) a = settled es a := by
  rw [settled, settled, lastLiteral?_filter_of_ne h]

theorem settled_settled (a : Parameter) : settled es (settled es a) = settled es a := by
  cases hlast : lastLiteral? es a.id with
  | none => rw [settled_of_none hlast, settled_of_none hlast]
  | some literal =>
    have hagain : lastLiteral? es (a.reread literal).id = some literal := hlast
    rw [settled_of_some hlast, settled_of_some hagain, Parameter.reread_reread]

/-- The first of the parameters takes all that is for its id, and leaves the rest to the others. -/
theorem giveAll_cons (es : List (Int32 × String)) (a : Parameter) (rest : List Parameter) :
    giveAll es (a :: rest) = settled es a :: giveAll (es.filter (·.1 ≠ a.id)) rest := by
  -- Entry by entry either `a` changes or the rest does, but the id of `a` stays.
  induction es generalizing a rest with
  | nil => rfl
  | cons e es ih =>
    rw [giveAll, List.foldl_cons, give, settled_cons]
    by_cases hid : a.id = e.1
    · have hkeep : (a.reread e.2).id = a.id := rfl
      rw [if_pos hid, if_pos hid, List.filter_cons_of_neg (by simp [hid]), ← hkeep]
      exact ih (a.reread e.2) rest
    · rw [if_neg hid, if_neg hid, List.filter_cons_of_pos (by simpa using Ne.symm hid)]
      exact ih a (give e rest)

theorem giveAll_nil (es : List (Int32 × String)) : giveAll es [] = [] := by
  induction es with
  | nil => rfl
  | cons e es ih => exact ih

/-- Which parameters there are, and of which kinds, is not for a text to change. -/
theorem map_giveAll (es : List (Int32 × String)) (items : List Parameter) :
    ((giveAll es items).map fun a => (a.id, a.label, a.kind)) =
      items.map fun a => (a.id, a.label, a.kind) := by
  induction items generalizing es with
  | nil => rw [giveAll_nil]
  | cons a rest ih =>
    obtain ⟨hid, hlabel, hkind⟩ := settled_keeps es a
    rw [giveAll_cons, List.map_cons, List.map_cons, ih, hid, hlabel, hkind]

theorem ids_giveAll (es : List (Int32 × String)) (items : List Parameter) :
    (giveAll es items).map (·.id) = items.map (·.id) := by
  have hids := congrArg (List.map Prod.fst) (map_giveAll es items)
  simpa only [List.map_map, Function.comp_def] using hids

theorem ids_give (e : Int32 × String) (items : List Parameter) :
    (give e items).map (·.id) = items.map (·.id) := ids_giveAll [e] items

theorem giveAll_giveAll (es : List (Int32 × String)) (items : List Parameter) :
    giveAll es (giveAll es items) = giveAll es items := by
  induction items generalizing es with
  | nil => rw [giveAll_nil, giveAll_nil]
  | cons a rest ih =>
    rw [giveAll_cons, giveAll_cons, settled_settled, (settled_keeps es a).1, ih]

/-- A parameter becomes `settled`, unless there is one with its id before it. -/
theorem getElem?_giveAll {items : List Parameter} {i : Nat} {a : Parameter}
    (h : items[i]? = some a) : (giveAll es items)[i]? =
      some (if a.id ∈ (items.take i).map (·.id) then a else settled es a) := by
  induction items generalizing es i with
  | nil => simp at h
  | cons b rest ih =>
    rw [giveAll_cons]
    cases i with
    | zero =>
      obtain rfl := Option.some.inj h
      rfl
    | succ i =>
      rw [List.getElem?_cons_succ, ih h]
      simp only [List.take_succ_cons, List.map_cons, List.mem_cons]
      by_cases hid : a.id = b.id
      · -- What was for it has been taken by `b`.
        rw [← hid, settled_filter_self, ite_self, if_pos (Or.inl rfl)]
      · simp only [settled_filter_of_ne hid, hid, false_or]

/-- Of parameters with different ids, each becomes `settled`. -/
theorem giveAll_of_nodup {items : List Parameter} (h : (items.map (·.id)).Nodup) :
    giveAll es items = items.map (settled es) := by
  induction items generalizing es with
  | nil => exact giveAll_nil es
  | cons a rest ih =>
    rw [List.map_cons, List.nodup_cons] at h
    rw [giveAll_cons, ih h.2, List.map_cons]
    refine congrArg (settled es a :: ·) (List.map_congr_left fun b hb => ?_)
    exact settled_filter_of_ne fun hid => h.1 (hid ▸ List.mem_map_of_mem hb)

/-! ### Texts -/

theorem get?_eq_none_iff (s : ParameterSet) (id : Int32) :
    s.get? id = none ↔ id ∉ s.items.map (·.id) := by
  simp [get?]

theorem mem_ids_of_get? {s : ParameterSet} {id : Int32} {a : Parameter}
    (h : s.get? id = some a) : id ∈ s.items.map (·.id) :=
  List.mem_map.mpr ⟨a, List.mem_of_find?_eq_some h, by simpa using List.find?_some h⟩

theorem put_eq_give {s : ParameterSet} {id : Int32} {a : Parameter} (h : s.get? id = some a)
    (literal : String) : s.put id (a.reread literal) = ⟨give (id, literal) s.items⟩ := by
  obtain ⟨items⟩ := s
  refine congrArg ParameterSet.mk ?_
  change items.find? (·.id = id) = some a at h
  induction items with
  | nil => simp at h
  | cons b rest ih =>
    rw [replaceFirst, give]
    by_cases hid : b.id = id
    · rw [List.find?_cons_of_pos (by simpa using hid)] at h
      obtain rfl := Option.some.inj h
      rw [if_pos hid, if_pos hid]
    · rw [List.find?_cons_of_neg (by simpa using hid)] at h
      rw [if_neg hid, if_neg hid, ih h]

theorem give_of_not_mem {e : Int32 × String} {items : List Parameter}
    (h : e.1 ∉ items.map (·.id)) : give e items = items := by
  induction items with
  | nil => rfl
  | cons a rest ih =>
    obtain ⟨hid, hrest⟩ := not_or.mp (mt List.mem_cons.mpr h)
    rw [give, if_neg (Ne.symm hid), ih hrest]

/-- An entry is for the first parameter with its id, if there is one. -/
theorem restoreEntry_eq (s : ParameterSet) (entry : List Char) : s.restoreEntry entry =
    match readEntry entry with
    | .error notice => .error notice
    | .ok e =>
      if e.1 ∈ s.items.map (·.id) then .ok ⟨give e s.items⟩ else .error .entryUnknown := by
  unfold restoreEntry readEntry
  cases Text.cutOnce '=' entry with
  | none => rfl
  | some parts =>
    dsimp only
    cases Number.readInt32? (Text.trimChars parts.1) with
    | none => rfl
    | some id =>
      dsimp only
      cases hfound : s.get? id with
      | none => rw [if_neg ((s.get?_eq_none_iff id).mp hfound)]
      | some a =>
        rw [if_pos (mem_ids_of_get? hfound), ← put_eq_give hfound]
        rfl

/-- Entries give their literals to the parameters if they are well formed, and are objected to if
they are not, or if there is no parameter for them. -/
theorem restoreEntries_eq (s : ParameterSet) (entries : List (List Char)) :
    s.restoreEntries entries = (⟨giveAll (wellFormed entries) s.items⟩,
      entries.filterMap (objection? (s.items.map (·.id)))) := by
  induction entries generalizing s with
  | nil => rfl
  | cons entry entries ih =>
    rw [restoreEntries, restoreEntry_eq, wellFormed, List.filterMap_cons, List.filterMap_cons,
      objection?]
    cases readEntry entry with
    | error notice =>
      dsimp only [Except.toOption]
      rw [ih]
      rfl
    | ok e =>
      dsimp only [Except.toOption]
      by_cases hmem : e.1 ∈ s.items.map (·.id)
      · rw [if_pos hmem, if_pos hmem]
        dsimp only
        -- The ids are the same as before, so later entries meet the same objections.
        rw [ih, ids_give]
        rfl
      · rw [if_neg hmem, if_neg hmem]
        dsimp only
        rw [ih]
        have hsame : giveAll (e :: wellFormed entries) s.items =
            giveAll (wellFormed entries) s.items := by
          rw [giveAll, List.foldl_cons, give_of_not_mem hmem]
          rfl
        rw [← hsame]
        rfl

theorem restore_eq (s : ParameterSet) (data : String) :
    s.restore data = (⟨giveAll (assignments data) s.items⟩,
      ((Text.cut ';' data.toList).filter (!·.isEmpty)).filterMap
        (objection? (s.items.map (·.id)))) := s.restoreEntries_eq _

/-- Any text can be applied to any set. It keeps the number of the parameters, their order, ids,
labels and kinds; a parameter that no well-formed entry is for, or that has one with its id before
it, keeps its value; any other that an entry is for has the value that its own kind reads in the
literal of the last such entry; and to apply the text again changes nothing, and leaves the same
notices. -/
theorem restore_takes_last (s : ParameterSet) (data : String) :
    ((s.restore data).1.items.map fun a => (a.id, a.label, a.kind)) =
        (s.items.map fun a => (a.id, a.label, a.kind)) ∧
      (∀ (i : Nat) (a : Parameter), s.items[i]? = some a →
        a.id ∈ (s.items.take i).map (·.id) ∨ lastLiteral? (assignments data) a.id = none →
          (s.restore data).1.items[i]? = some a) ∧
      (∀ (i : Nat) (a : Parameter) (literal : String), s.items[i]? = some a →
        a.id ∉ (s.items.take i).map (·.id) →
        lastLiteral? (assignments data) a.id = some literal →
          (s.restore data).1.items[i]? = some { a with value := .read a.kind literal }) ∧
      (s.restore data).1.restore data = s.restore data := by
  rw [restore_eq]
  refine ⟨map_giveAll _ _, ?_, ?_, ?_⟩
  · rintro i a ha hkeeps
    rw [getElem?_giveAll ha]
    rcases hkeeps with hbefore | hnone
    · rw [if_pos hbefore]
    · rw [settled_of_none hnone, ite_self]
  · intro i a literal ha hfirst hlast
    rw [getElem?_giveAll ha, if_neg hfirst, settled_of_some hlast]
    rfl
  · rw [restore_eq, ids_giveAll, giveAll_giveAll]

/-- Entries without an equals sign, without an id, with one that is too great, and several for one
parameter, the last of which is no number; and an id that two parameters have. -/
theorem restore_takes_last_garbled :
    let s : ParameterSet := ⟨[{ id := 1, label := "line", value := .string "a" },
      { id := 2, value := .integer 5 }, { id := 1, value := .integer 7 },
      { id := 3, value := .boolean true }]⟩
    let data := "x;;1=b; 2 =4;99999999999=1;=3;2=+9z;3;1=*COLON*=*STAR"
    (s.restore data).1.items[0]? = some { id := 1, label := "line", value := .string ":=*STAR" } ∧
      (s.restore data).1.items[1]? = some { id := 2, value := .integer 0 } ∧
      (s.restore data).1.items[2]? = some { id := 1, value := .integer 7 } ∧
      (s.restore data).1.items[3]? = some { id := 3, value := .boolean true } := by
  intro s data
  obtain ⟨-, hkept, htaken, -⟩ := restore_takes_last s data
  refine ⟨htaken 0 _ ":=*STAR" rfl (by decide) (by decide), ?_, ?_, ?_⟩
  · exact htaken 1 _ "+9z" rfl (by decide) (by decide)
  · exact hkept 2 _ rfl (Or.inl (by decide))
  · exact hkept 3 _ rfl (Or.inr (by decide))

end ParameterSet

end Cutscene
