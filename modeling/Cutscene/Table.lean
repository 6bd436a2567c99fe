/-!
# Tables

Values addressed by a name, each name once. `get?_insert` and `get?_erase` say all that can be seen
of a table.
-/

namespace Cutscene

/-- Values addressed by a name. -/
structure Table (α : Type) where
  entries : List (String × α) := []

namespace Table

variable {α : Type}

/-- The value under a name. -/
def get? (t : Table α) (name : String) : Option α := t.entries.lookup name

/-- There is a value under a name. -/
def contains (t : Table α) (name : String) : Bool := (t.get? name).isSome

/-- Forgets the value under a name. -/
def erase (t : Table α) (name : String) : Table α := ⟨t.entries.filter (·.1 ≠ name)⟩

/-- Puts a value under a name, in the place of the one there. -/
def insert (t : Table α) (name : String) (value : α) : Table α :=
  ⟨(name, value) :: (t.erase name).entries⟩

/-- The names in ascending order. -/
def names (t : Table α) : List String := (t.entries.map (·.1)).mergeSort (· ≤ ·)

theorem get?_erase (t : Table α) (name key : String) :
    (t.erase name).get? key = if key = name then none else t.get? key := by
  obtain ⟨entries⟩ := t
  induction entries with
  | nil => simp [erase, get?]
  | cons e rest ih =>
    obtain ⟨k, v⟩ := e
    simp only [erase, get?] at ih ⊢
    by_cases h : key = k <;> by_cases hk : k = name
    · subst h hk; simpa using ih
    · subst h; simp [hk]
    · subst hk
      have hb : (key == k) = false := by simpa using h
      simp only [ne_eq, not_true_eq_false, decide_false, Bool.false_eq_true, not_false_eq_true,
        List.filter_cons_of_neg, List.lookup_cons, hb]
      simpa using ih
    · have hb : (key == k) = false := by simpa using h
      simp only [ne_eq, hk, not_false_eq_true, decide_true, List.filter_cons_of_pos,
        List.lookup_cons, hb]
      simpa using ih

theorem get?_insert (t : Table α) (name key : String) (value : α) :
    (t.insert name value).get? key = if key = name then some value else t.get? key := by
  have he := t.get?_erase name key
  by_cases h : key = name
  · subst h; simp [insert, get?]
  · have hb : (key == name) = false := by simpa using h
    simp only [h, if_false] at he ⊢
    rw [← he, insert, get?, List.lookup_cons, hb]
    rfl

end Table

end Cutscene
