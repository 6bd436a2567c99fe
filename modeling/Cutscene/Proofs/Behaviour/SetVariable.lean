import Cutscene.Behaviour.SetVariable
import Cutscene.Proofs.Variables

/-!
# Variables set from parameters

A node that sets a variable may name a parameter for the value and give none itself. It then begins
with the integer zero, and it takes from the parameter only what is of the type of the value that it
holds; so it holds an integer for ever (`value_takeOver`). It stores the number of an integer or of
a choice in a menu, and nothing of what parameters of other kinds have (`stores_integers_only`).
-/

namespace Cutscene.SetVariable

/-- What a variable has to hold to have the value of a parameter. Objects, items, documents and
variables, of which parameters have the ids, are no values of variables. -/
def counterpart? : Parameter.Value → Option Variable.Value
  | .integer v | .popUp v => some (.integer v)
  | .float x => some (.float x)
  | .boolean b => some (.boolean b)
  | .string s | .asset s => some (.string s)
  | .vector v => some (.vector v)
  | _ => none

/-- The params are those of a node that sets a variable to the value of a parameter. -/
structure SetsToParameter (params : Json) (id : Int32) : Prop where
  operation : (Params.string? params "operation").getD "set" = "set"
  value : params.get? "value" = none
  binding : Params.binding? params "value" = some id

/-- The node after it has taken over values from some sets, one after the other. -/
def takeOver (s : SetVariable) (sets : List ParameterSet) : SetVariable :=
  sets.foldl (fun s parameters => s.assign parameters) s

/-- The numbers that some sets have for a parameter, of those that have one. -/
def numbers (id : Int32) (sets : List ParameterSet) : List Int32 :=
  sets.filterMap fun parameters => (parameters.get? id).bind (·.value.integer?)

/-! ### The value that a node holds -/

section Holding

variable {s : SetVariable} {id : Int32} {n : Int32}

/-- Such a node begins with the integer zero. -/
theorem prepare_of_setsToParameter {params : Json} (h : SetsToParameter params id)
    (hprepare : prepare params = .ok s) :
    s.adds = false ∧ s.value = .integer 0 ∧ s.valueBinding = some id := by
  unfold prepare at hprepare
  simp only [h.operation, h.value, h.binding, Option.isSome_some, if_true, bind, Except.bind]
    at hprepare
  split at hprepare
  · split at hprepare
    · simp at hprepare
    · simp only [Bool.false_and, Bool.false_eq_true, if_false] at hprepare
      obtain rfl := Except.ok.inj hprepare
      exact ⟨rfl, rfl, rfl⟩
  · simp at hprepare

/-- A node that holds an integer takes over another number if the set has one for it, and nothing
else. -/
theorem value_assign (hvalue : s.value = .integer n) (hbinding : s.valueBinding = some id)
    (parameters : ParameterSet) : (s.assign parameters).value =
      .integer (((parameters.get? id).bind (·.value.integer?)).getD n) := by
  have htakes : (s.assign parameters).value =
      (((parameters.get? id).map (·.value)).bind fun v => v.integer?.map .integer).getD
        (.integer n) := by
    rw [assign, hvalue, hbinding]
    rfl
  rw [htakes]
  cases parameters.get? id with
  | none => rfl
  | some p =>
    change ((p.value.integer?).map Variable.Value.integer).getD _ =
      .integer (p.value.integer?.getD n)
    cases p.value.integer? with
    | none => rfl
    | some m => rfl

/-- What a node does, and where it takes its value from, no set changes. -/
theorem takeOver_keeps (s : SetVariable) (sets : List ParameterSet) :
    (s.takeOver sets).adds = s.adds ∧ (s.takeOver sets).valueBinding = s.valueBinding := by
  induction sets generalizing s with
  | nil => exact ⟨rfl, rfl⟩
  | cons parameters sets ih => exact ih (s.assign parameters)

/-- A node that holds an integer holds the last number that a set had for it. -/
theorem value_takeOver (hvalue : s.value = .integer n) (hbinding : s.valueBinding = some id)
    (sets : List ParameterSet) :
    (s.takeOver sets).value = .integer (((numbers id sets).getLast?).getD n) := by
  -- The invariant is that the value is an integer; which one it is changes on the way.
  induction sets generalizing s n with
  | nil => exact hvalue
  | cons parameters sets ih =>
    have hnext := value_assign hvalue hbinding parameters
    rw [takeOver, List.foldl_cons]
    refine (ih hnext hbinding).trans (congrArg Variable.Value.integer ?_)
    rw [numbers, numbers, List.filterMap_cons]
    cases (parameters.get? id).bind (·.value.integer?) with
    | none => rfl
    | some m => rw [List.getLast?_cons, Option.getD_some, Option.getD_some]

end Holding

/-! ### What is stored -/

/-- A node that sets a variable writes the value that it holds, and no other variable. -/
theorem run_of_sets {s : SetVariable} (h : s.adds = false) (vars : Variables) :
    (run vars s).vars = vars.set s.scope s.target s.value := by
  rw [run, h]
  rfl

theorem integer?_eq_some_iff (v : Parameter.Value) (n : Int32) : v.integer? = some n ↔
    counterpart? v = some (.integer n) := by
  cases v <;> simp [Parameter.Value.integer?, counterpart?]

theorem isSome_integer?_iff (v : Parameter.Value) : v.integer?.isSome ↔
    v.kind = .integer ∨ v.kind = .popUp := by
  cases v <;> simp [Parameter.Value.integer?, Parameter.Value.kind]

/-- A node that sets a variable to the value of a parameter stores the value exactly if the
parameter is an integer or a choice in a menu. It stores an integer in any case: of a parameter of
another kind it takes nothing, and what is stored is the last number that it was given before, or
zero. All other variables stay as they were. -/
theorem stores_integers_only {params : Json} {id : Int32} (hparams : SetsToParameter params id)
    {s : SetVariable} (hprepare : prepare params = .ok s) (before : List ParameterSet)
    {parameters : ParameterSet} {p : Parameter} (hp : parameters.get? id = some p)
    {v : Variable.Value} (hv : counterpart? p.value = some v) (vars : Variables) :
    let ready := (s.takeOver before).assign parameters
    let after := (run vars ready).vars
    (after.get? ready.scope ready.target = some v ↔ p.kind = .integer ∨ p.kind = .popUp) ∧
      (¬ (p.kind = .integer ∨ p.kind = .popUp) → after.get? ready.scope ready.target =
        some (.integer ((numbers id before).getLast?.getD 0))) ∧
      ∀ scope target, ¬ (scope = ready.scope ∧ target = ready.target) →
        after.find? scope target = vars.find? scope target := by
  intro ready after
  obtain ⟨hadds, hvalue, hbinding⟩ := prepare_of_setsToParameter hparams hprepare
  obtain ⟨hkeepsAdds, hkeepsBinding⟩ := takeOver_keeps s before
  have hholds : ready.value =
      .integer (p.value.integer?.getD ((numbers id before).getLast?.getD 0)) := by
    have htaken := value_assign (value_takeOver hvalue hbinding before)
      (hkeepsBinding.trans hbinding) parameters
    rwa [hp] at htaken
  have hsets : ready.adds = false := hkeepsAdds.trans hadds
  have hafter : after = vars.set ready.scope ready.target ready.value := run_of_sets hsets vars
  have hstored : after.get? ready.scope ready.target = some ready.value := by
    rw [hafter, Variables.get?_set_self]
  have hnumber : p.value.integer?.isSome ↔ p.kind = .integer ∨ p.kind = .popUp :=
    isSome_integer?_iff p.value
  -- All that is left is to compare the value with the integer that the node holds.
  rw [hstored, hholds]
  refine ⟨?_, fun hother => ?_, fun scope target hother => ?_⟩
  · rw [← hnumber]
    cases hinteger : p.value.integer? with
    | some n =>
      rw [(integer?_eq_some_iff p.value n).mp hinteger] at hv
      simpa using hv
    | none =>
      -- An integer is no counterpart of a value that has no number.
      refine iff_of_false (fun hsame => ?_) (by simp)
      rw [← Option.some.inj hsame, ← integer?_eq_some_iff, hinteger] at hv
      simp at hv
  · rw [← hnumber, Option.not_isSome_iff_eq_none] at hother
    rw [hother, Option.getD_none]
  · rw [hafter, Variables.find?_set, if_neg hother]

/-- Variable 1 of the scene is to be what parameter 5 is, a text. -/
def greeting : Json := .object
  [("operation", .string "set"), ("scope", .string "local"), ("value_parameter", .int 5),
    ("variable", .int 1)]

theorem setsToParameter_greeting : SetsToParameter greeting 5 where
  operation := by decide
  value := rfl
  binding := by decide

/-- The variable becomes zero instead. -/
theorem stores_integers_only_greeting : ∃ s, prepare greeting = .ok s ∧
    let parameters : ParameterSet := ⟨[{ id := 5, value := .string "hello" }]⟩
    let after := (run {} (s.assign parameters)).vars
    after.get? .scene 1 = some (.integer 0) ∧ after.get? .scene 1 ≠ some (.string "hello") := by
  let s : SetVariable :=
    { scope := .scene, target := 1, targetBinding := none, adds := false, value := .integer 0,
      valueBinding := some 5 }
  have hprepare : prepare greeting = .ok s := rfl
  let parameters : ParameterSet := ⟨[{ id := 5, value := .string "hello" }]⟩
  have hp : parameters.get? 5 = some { id := 5, value := .string "hello" } := rfl
  obtain ⟨hiff, hzero, -⟩ :=
    stores_integers_only setsToParameter_greeting hprepare [] hp rfl {}
  refine ⟨s, hprepare, hzero (by decide), fun hstored => ?_⟩
  exact absurd (hiff.mp hstored) (by decide)

end Cutscene.SetVariable
