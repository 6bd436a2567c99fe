import Cutscene.Variables

/-!
# Writing variables

What is found among the variables after one has been written: that one with its new value, and all
others as they were (`Variables.find?_set`).
-/

namespace Cutscene.Variables

theorem find?_insert (v : Variable) (list : List Variable) (id : Int32) :
    (insert v list).find? (·.id = id) = if v.id = id then some v else list.find? (·.id = id) := by
  induction list with
  | nil => by_cases hid : v.id = id <;> simp [insert, hid]
  | cons w rest ih =>
    by_cases hsame : v.id = w.id
    · rw [insert, if_pos hsame, List.find?_cons, List.find?_cons, ← hsame]
      by_cases hid : v.id = id <;> simp [hid]
    · by_cases hbefore : v.id < w.id
      · rw [insert, if_neg hsame, if_pos hbefore, List.find?_cons]
        by_cases hid : v.id = id <;> simp [hid]
      · rw [insert, if_neg hsame, if_neg hbefore, List.find?_cons, List.find?_cons, ih]
        by_cases hw : w.id = id
        · -- `v` comes to stand behind `w`, but has another id.
          have hv : v.id ≠ id := fun hid => hsame (hid.trans hw.symm)
          simp [hw, hv]
        · simp [hw]

theorem list_withList (vs : Variables) (scope other : Variable.Scope) (list : List Variable) :
    (vs.withList scope list).list other = if other = scope then list else vs.list other := by
  cases scope <;> cases other <;> rfl

theorem find?_define (vs : Variables) (scope other : Variable.Scope) (v : Variable) (id : Int32) :
    (vs.define scope v).find? other id =
      if other = scope ∧ v.id = id then some v else vs.find? other id := by
  rw [find?, define, list_withList]
  by_cases hscope : other = scope
  · subst hscope
    rw [if_pos rfl, find?_insert]
    simp only [true_and]
    rfl
  · rw [if_neg hscope, if_neg fun h => hscope h.1]
    rfl

/-- A variable with a new value, under the label that it has or, if it is new, that its id gives
it. -/
def written (vs : Variables) (scope : Variable.Scope) (id : Int32) (value : Variable.Value) :
    Variable where
  id := id
  label := ((vs.find? scope id).map (·.label)).getD ("var" ++ toString id.toInt)
  value := value

theorem set_eq_define (vs : Variables) (scope : Variable.Scope) (id : Int32)
    (value : Variable.Value) : vs.set scope id value =
      vs.define scope (vs.written scope id value) := by
  unfold set written
  cases hfound : vs.find? scope id with
  | none => rfl
  | some v =>
    obtain rfl : v.id = id := by simpa using List.find?_some hfound
    rfl

/-- To write a variable leaves all others as they were. -/
theorem find?_set (vs : Variables) (scope other : Variable.Scope) (id target : Int32)
    (value : Variable.Value) : (vs.set scope target value).find? other id =
      if other = scope ∧ id = target then some (vs.written scope target value)
      else vs.find? other id := by
  rw [set_eq_define, find?_define]
  simp only [written, eq_comm]

theorem get?_set_self (vs : Variables) (scope : Variable.Scope) (id : Int32)
    (value : Variable.Value) : (vs.set scope id value).get? scope id = some value := by
  rw [get?, find?_set, if_pos ⟨rfl, rfl⟩]
  rfl

end Cutscene.Variables
