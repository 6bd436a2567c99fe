import Cutscene.Condition.Eval
import Mathlib.Data.List.Nodup

/-!
# What conditions read

A condition finds a variable by its label among bindings, `Variables.byLabel?` finds it in the scene
and then in the global scope. The bindings are filled the other way round: the global scope first,
and over it the scene, where a name keeps the type that it was bound to first. So both find the same
value unless the scene has a variable under the label of a global one of another kind
(`Variables.Clash`): there a condition keeps to the global one (`reads_visible_iff_not_clash`).

A condition sees nothing of variables but what it reads of them (`eval?_congr`), so where nothing
clashes it holds exactly if it holds of what the lookup finds.
-/

namespace Cutscene

/-- The values are of one kind. -/
def Variable.Value.sameKind : Variable.Value → Variable.Value → Bool
  | .integer _, .integer _ | .float _, .float _ | .boolean _, .boolean _ | .string _, .string _
  | .vector _, .vector _ => true
  | _, _ => false

/-- The value is a vector. -/
def Variable.Value.isVector : Variable.Value → Bool
  | .vector _ => true
  | _ => false

/-- The scene has a variable under the label of a global one, but of another kind, and the global
one is no vector. -/
def Variables.Clash (vs : Variables) (label : String) : Prop :=
  ∃ g ∈ vs.global, ∃ v ∈ vs.scene, g.label = label ∧ v.label = label ∧
    g.value.isVector = false ∧ g.value.sameKind v.value = false

namespace Condition

open Bindings

/-- What a condition reads under a name. -/
def reading? (vs : Variables) (name : String) : Option Value :=
  (Expr.leaf (.lookup name)).eval? (ofVariables vs)

/-- The value that a condition has for what is found under a label. -/
def visible? (vs : Variables) (label : String) : Option Value :=
  (vs.byLabel? label).bind valueOf?

theorem reading?_eq (vs : Variables) (name : String) :
    reading? vs name = (ofVariables vs).lookup name := by
  simp [reading?, Expr.leaf, Expr.eval?, Expr.evalAll?, Operator.perform?]

/-! ### Conditions see what they read -/

section Congr

variable {b b' : Bindings}

theorem perform?_congr (h : ∀ name, b.lookup name = b'.lookup name) (o : Operator)
    (operands : List Value) : o.perform? b operands = o.perform? b' operands := by
  cases o with
  | lookup name => exact h name
  | _ => rfl

mutual

/-- The value of an expression hangs on nothing but what its names stand for. -/
theorem eval?_congr (h : ∀ name, b.lookup name = b'.lookup name) :
    ∀ e : Expr, e.eval? b = e.eval? b'
  | .node o operands => by
    rw [Expr.eval?, Expr.eval?, evalAll?_congr h [] operands]
    exact Option.bind_congr fun values _ => perform?_congr h o values

theorem evalAll?_congr (h : ∀ name, b.lookup name = b'.lookup name) (values : List Value) :
    ∀ es : List Expr, Expr.evalAll? b values es = Expr.evalAll? b' values es
  | [] => rfl
  | e :: rest => by
    rw [Expr.evalAll?, Expr.evalAll?, eval?_congr h e]
    cases e.eval? b' with
    | none => rfl
    | some v => exact evalAll?_congr h (v :: values) rest

end

end Congr

/-! ### What a name is bound to -/

namespace Bindings

/-- What a name stands for that is bound once more: the new value, if the old one has its type. -/
def rebound : Option Value → Option Value → Option Value
  | some old, some new => if old.sameType new then some new else some old
  | some old, none => some old
  | none, new => new

theorem rebound_none (old : Option Value) : rebound old none = old := by
  cases old <;> rfl

theorem lookup_cons (b : Bindings) (name key : String) (value : Value) :
    ((name, value) :: b).lookup key = if key = name then some value else b.lookup key := by
  rw [List.lookup_cons]
  by_cases h : key = name
  · simp [h]
  · simp [h, beq_eq_false_iff_ne.mpr h]

theorem lookup_bind (b : Bindings) (name key : String) (value : Value) :
    (b.bind name value).lookup key =
      if key = name then rebound (b.lookup name) (some value) else b.lookup key := by
  unfold bind
  cases hold : b.lookup name with
  | none => exact lookup_cons b name key value
  | some old =>
    dsimp only [rebound]
    split_ifs with htype hkey hkey
    · rw [lookup_cons, if_pos hkey]
    · rw [lookup_cons, if_neg hkey]
    · rw [hkey, hold]
    · rfl

theorem lookup_bindVariable (b : Bindings) (v : Variable) (key : String) :
    (b.bindVariable v).lookup key =
      if key = v.label then rebound (b.lookup key) (valueOf? v.value) else b.lookup key := by
  unfold bindVariable
  cases hvalue : valueOf? v.value with
  | none => simp [rebound_none]
  | some value =>
    dsimp only
    rw [lookup_bind]
    split_ifs with hkey
    · rw [hkey]
    · rfl

/-- The variable under a label, if there is one. -/
def labelled (list : List Variable) (label : String) : Option Variable :=
  list.find? (·.label = label)

theorem labelled_cons (v : Variable) (rest : List Variable) (label : String) :
    labelled (v :: rest) label = if v.label = label then some v else labelled rest label := by
  rw [labelled, List.find?_cons]
  split_ifs with h
  · rw [decide_eq_true h]
  · rw [decide_eq_false h]
    rfl

theorem labelled_eq_some_iff {list : List Variable} (hnodup : (list.map (·.label)).Nodup)
    {label : String} {v : Variable} :
    labelled list label = some v ↔ v ∈ list ∧ v.label = label := by
  induction list with
  | nil => simp [labelled]
  | cons w rest ih =>
    obtain ⟨hnew, hrest⟩ := List.nodup_cons.mp hnodup
    rw [labelled_cons]
    split_ifs with hlabel
    · constructor
      · intro h
        obtain rfl := Option.some.inj h
        exact ⟨List.mem_cons_self, hlabel⟩
      · rintro ⟨hv, hv'⟩
        rcases List.mem_cons.mp hv with rfl | hv
        · rfl
        · -- Another variable of that label would stand twice.
          refine absurd ?_ hnew
          show w.label ∈ rest.map (·.label)
          rw [hlabel, ← hv']
          exact List.mem_map_of_mem hv
    · rw [ih hrest]
      constructor
      · rintro ⟨hv, hv'⟩
        exact ⟨List.mem_cons_of_mem w hv, hv'⟩
      · rintro ⟨hv, hv'⟩
        rcases List.mem_cons.mp hv with rfl | hv
        · exact absurd hv' hlabel
        · exact ⟨hv, hv'⟩

/-- Of variables with different labels a name is bound to one at most. -/
theorem lookup_foldl {list : List Variable} (hnodup : (list.map (·.label)).Nodup) (b : Bindings)
    (key : String) : (list.foldl bindVariable b).lookup key =
      rebound (b.lookup key) ((labelled list key).bind (valueOf? ·.value)) := by
  induction list generalizing b with
  | nil => exact (rebound_none _).symm
  | cons v rest ih =>
    obtain ⟨hnew, hrest⟩ := List.nodup_cons.mp hnodup
    rw [List.foldl_cons, ih hrest, lookup_bindVariable, labelled_cons]
    by_cases hkey : key = v.label
    · -- The others have other labels.
      have hnone : labelled rest key = none := by
        refine List.find?_eq_none.mpr fun w hw hlabel => hnew ?_
        show v.label ∈ rest.map (·.label)
        rw [← hkey, ← of_decide_eq_true hlabel]
        exact List.mem_map_of_mem hw
      rw [hnone, if_pos hkey, if_pos hkey.symm]
      exact rebound_none _
    · rw [if_neg hkey, if_neg (Ne.symm hkey)]

/-- A value gives way to one of its kind, and a vector, which has no value in conditions, to any. -/
theorem rebound_valueOf? (old new : Variable.Value) :
    rebound (valueOf? old) (valueOf? new) =
      if old.isVector || old.sameKind new then valueOf? new else valueOf? old := by
  cases old <;> cases new <;> rfl

theorem valueOf?_ne {old new : Variable.Value} (hvector : old.isVector = false)
    (hkind : old.sameKind new = false) : valueOf? old ≠ valueOf? new := by
  cases old <;> cases new <;> simp_all [Variable.Value.isVector, Variable.Value.sameKind, valueOf?]

end Bindings

/-! ### The two ways to find a variable -/

section Store

variable {vs : Variables} (hglobal : (vs.global.map (·.label)).Nodup)
  (hscene : (vs.scene.map (·.label)).Nodup) (label : String)

include hglobal hscene

theorem clash_iff : vs.Clash label ↔ ∃ g v, labelled vs.global label = some g ∧
    labelled vs.scene label = some v ∧ g.value.isVector = false ∧
    g.value.sameKind v.value = false := by
  simp only [labelled_eq_some_iff hglobal, labelled_eq_some_iff hscene]
  constructor
  · rintro ⟨g, hg, v, hv, hlabel, hlabel', hvector, hkind⟩
    exact ⟨g, v, ⟨hg, hlabel⟩, ⟨hv, hlabel'⟩, hvector, hkind⟩
  · rintro ⟨g, v, ⟨hg, hlabel⟩, ⟨hv, hlabel'⟩, hvector, hkind⟩
    exact ⟨g, hg, v, hv, hlabel, hlabel', hvector, hkind⟩

theorem reading?_eq_rebound : reading? vs label =
    rebound ((labelled vs.global label).bind (valueOf? ·.value))
      ((labelled vs.scene label).bind (valueOf? ·.value)) := by
  rw [reading?_eq, ofVariables, lookup_foldl hscene, lookup_foldl hglobal]
  rfl

omit hglobal hscene in
theorem visible?_eq : visible? vs label =
    ((labelled vs.scene label).or (labelled vs.global label)).bind (valueOf? ·.value) := by
  unfold visible? Variables.byLabel?
  dsimp only
  rw [← Option.map_or, Option.bind_map]
  rfl

/-- Conditions read what the lookup finds. -/
theorem reading?_of_not_clash (h : ¬ vs.Clash label) : reading? vs label = visible? vs label := by
  rw [reading?_eq_rebound hglobal hscene, visible?_eq]
  rw [clash_iff hglobal hscene] at h
  cases hv : labelled vs.scene label with
  | none => exact rebound_none _
  | some v =>
    cases hg : labelled vs.global label with
    | none => rfl
    | some g =>
      simp only [Option.bind_some, Option.some_or, rebound_valueOf?]
      refine if_pos ?_
      by_contra hnot
      simp only [Bool.or_eq_true, not_or, Bool.not_eq_true] at hnot
      exact h ⟨g, v, hg, hv, hnot.1, hnot.2⟩

/-- Conditions read the global variable, as if there were no scene, and the lookup does not find
it. -/
theorem reading?_of_clash (h : vs.Clash label) :
    reading? vs label = visible? vs.clearScene label ∧ reading? vs label ≠ visible? vs label := by
  obtain ⟨g, v, hg, hv, hvector, hkind⟩ := (clash_iff hglobal hscene label).mp h
  have hreads : reading? vs label = valueOf? g.value := by
    rw [reading?_eq_rebound hglobal hscene, hg, hv]
    simp only [Option.bind_some, rebound_valueOf?, hvector, hkind]
    rfl
  have hcleared : visible? vs.clearScene label = valueOf? g.value := by
    rw [visible?_eq]
    have hnone : labelled vs.clearScene.scene label = none := rfl
    have hsame : labelled vs.clearScene.global label = some g := hg
    rw [hnone, hsame]
    rfl
  refine ⟨hreads.trans hcleared.symm, ?_⟩
  rw [hreads, visible?_eq, hg, hv]
  exact valueOf?_ne hvector hkind

end Store

/-- For variables with different labels in each scope, a condition reads under a label what the
lookup finds there (and nothing where that is a vector), exactly if the label does not clash; where
it does, the condition reads the global variable as if there were no scene. So, where nothing
clashes, a condition holds of the variables if it holds of what the lookup finds. -/
theorem reads_visible_iff_not_clash (vs : Variables) (hglobal : (vs.global.map (·.label)).Nodup)
    (hscene : (vs.scene.map (·.label)).Nodup) :
    (∀ label, (reading? vs label = visible? vs label ↔ ¬ vs.Clash label) ∧
      (vs.Clash label → reading? vs label = visible? vs.clearScene label)) ∧
    ((∀ label, ¬ vs.Clash label) → ∀ (c : Condition) (b : Bindings),
      (∀ label, b.lookup label = visible? vs label) →
        c.holds? vs = (c.expr.eval? b).bind (·.boolean?)) := by
  constructor
  · intro label
    refine ⟨⟨fun hreads hclash => ?_, reading?_of_not_clash hglobal hscene label⟩, fun hclash => ?_⟩
    · exact (reading?_of_clash hglobal hscene label hclash).2 hreads
    · exact (reading?_of_clash hglobal hscene label hclash).1
  · intro hnone c b hb
    have hsame : ∀ name, (ofVariables vs).lookup name = b.lookup name := by
      intro name
      rw [← reading?_eq, reading?_of_not_clash hglobal hscene name (hnone name), hb name]
    rw [holds?, eval?_congr hsame]

/-- Two labels in both scopes: the values of `x` are of different kinds, those of `y` are not. -/
def mixed : Variables where
  global := [⟨1, "x", .integer 5⟩, ⟨2, "y", .boolean true⟩]
  scene := [⟨1, "x", .boolean true⟩, ⟨2, "y", .boolean false⟩]

theorem mixed_clash : mixed.Clash "x" :=
  ⟨_, List.mem_cons_self, _, List.mem_cons_self, rfl, rfl, rfl, rfl⟩

theorem mixed_not_clash : ¬ mixed.Clash "y" := by
  rintro ⟨g, hg, v, hv, hlabel, hlabel', -, hkind⟩
  simp only [mixed, List.mem_cons, List.not_mem_nil, or_false] at hg hv
  -- Of each scope the second variable has the label.
  obtain rfl | rfl := hg
  · simp at hlabel
  · obtain rfl | rfl := hv
    · simp at hlabel'
    · simp [Variable.Value.sameKind] at hkind

theorem reads_visible_iff_not_clash_mixed :
    (reading? mixed "x" = visible? mixed.clearScene "x" ∧
      reading? mixed "x" ≠ visible? mixed "x") ∧
    reading? mixed "y" = visible? mixed "y" := by
  have hlabels := (reads_visible_iff_not_clash mixed (by simp [mixed]) (by simp [mixed])).1
  refine ⟨⟨(hlabels "x").2 mixed_clash, fun hreads => ?_⟩, ?_⟩
  · exact (hlabels "x").1.mp hreads mixed_clash
  · exact (hlabels "y").1.mpr mixed_not_clash

end Condition

end Cutscene
