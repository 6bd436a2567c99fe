import Cutscene.Behaviour.Builtin

/-!
# Params that are accepted

A kind of nodes judges params in one place and makes behaviours of them in another. Of the built-in
kinds most judge by making a behaviour (`Builtin.strict`), and the others make one of anything that
they accept, but for one: whether there is a level of the name that is given for a message is asked
only when the behaviour is made (`Builtin.prepare_of_validate`).
-/

namespace Cutscene

/-! ### Messages -/

namespace Message

/-- A level is named that messages do not have. -/
def isMisleveled (params : Json) : Bool :=
  match Params.string? params "level" with
  | some word => (level? word).isNone
  | none => false

theorem exists_prepare {params : Json} (h : isMisleveled params = false) :
    ∃ m, prepare params = .ok m := by
  unfold isMisleveled at h
  unfold prepare
  cases hword : Params.string? params "level" with
  | none => exact ⟨_, rfl⟩
  | some word =>
    simp only [hword, Option.isNone_eq_false_iff, Option.isSome_iff_exists] at h
    obtain ⟨level, hlevel⟩ := h
    simp only [Option.getD_some, hlevel]
    exact ⟨_, rfl⟩

theorem prepare_of_isMisleveled {params : Json} (h : isMisleveled params = true) :
    ∃ word, Params.string? params "level" = some word ∧ level? word = none ∧
      prepare params = .error (.unknownLevel word) := by
  unfold isMisleveled at h
  cases hword : Params.string? params "level" with
  | none => simp [hword] at h
  | some word =>
    simp only [hword, Option.isNone_iff_eq_none] at h
    refine ⟨word, rfl, h, ?_⟩
    simp only [prepare, hword, Option.getD_some, h]

end Message

/-! ### Kinds that keep their word -/

/-- If the kind accepts the params, then it makes a behaviour of them. -/
def NodeKind.KeepsWord {β : Type} (kind : NodeKind β) (params : Json) : Prop :=
  kind.validate params = .ok () → ∃ b, kind.prepare params = .ok b

namespace Builtin

theorem keepsWord_strict (name : String) (prepare : Json → Except ParamError Builtin)
    (params : Json) : (strict name prepare).KeepsWord params := by
  intro h
  change (prepare params).map _ = .ok () at h
  change ∃ b, prepare params = .ok b
  cases hp : prepare params with
  | error error => simp [hp, Except.map] at h
  | ok b => exact ⟨b, rfl⟩

/-- What a built-in kind accepts it makes a behaviour of, unless it is a message with a level that
there is not. -/
theorem prepare_of_validate {kind : NodeKind Builtin} (hkind : kind ∈ kinds) {params : Json}
    (h : kind.validate params = .ok ()) :
    if kind.name = "log" ∧ Message.isMisleveled params = true then
      ∃ word, Params.string? params "level" = some word ∧ Message.level? word = none ∧
        kind.prepare params = .error (.unknownLevel word)
    else ∃ b, kind.prepare params = .ok b := by
  -- Only one kind is of that name, so for the others there is a behaviour to be shown.
  have hother : kind.name ≠ "log" → (∃ b, kind.prepare params = .ok b) →
      if kind.name = "log" ∧ Message.isMisleveled params = true then
        ∃ word, Params.string? params "level" = some word ∧ Message.level? word = none ∧
          kind.prepare params = .error (.unknownLevel word)
      else ∃ b, kind.prepare params = .ok b := by
    intro hname hb
    rwa [if_neg fun hlog => hname hlog.1]
  simp only [kinds, List.mem_cons, List.not_mem_nil, or_false] at hkind
  rcases hkind with rfl | rfl | rfl | rfl | rfl | rfl | rfl | rfl | rfl | rfl
  · exact hother (by decide) ⟨_, rfl⟩
  · cases hlevel : Message.isMisleveled params with
    | false =>
      obtain ⟨m, hm⟩ := Message.exists_prepare hlevel
      rw [if_neg fun hlog => nomatch hlog.2]
      exact ⟨.message m, by simp [hm, Except.map]⟩
    | true =>
      obtain ⟨word, hword, hnone, herror⟩ := Message.prepare_of_isMisleveled hlevel
      rw [if_pos ⟨rfl, rfl⟩]
      exact ⟨word, hword, hnone, by simp [herror, Except.map]⟩
  · exact hother (by decide) ⟨_, rfl⟩
  · exact hother (by decide) (keepsWord_strict _ _ params h)
  · exact hother (by decide) (keepsWord_strict _ _ params h)
  · -- The number of outputs is judged again when the behaviour is made.
    refine hother (by decide) ?_
    change Cycle.validate params = .ok () at h
    simp [Cycle.prepare, h, Except.map]
  · exact hother (by decide) ⟨_, rfl⟩
  · exact hother (by decide) (keepsWord_strict _ _ params h)
  · exact hother (by decide) (keepsWord_strict _ _ params h)
  · exact hother (by decide) (keepsWord_strict _ _ params h)

end Builtin

end Cutscene
