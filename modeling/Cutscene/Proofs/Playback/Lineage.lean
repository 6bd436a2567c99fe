import Cutscene.Proofs.Playback.Traits

/-!
# Behaviours and what is done to them

A behaviour changes with every call, so what is asked of a behaviour for a whole run has to be true
of whatever calls make of it. `Heritable` says so of a property of behaviours, which may depend on
the place of the node; `Playback.Inherits` says that the behaviours of a playback have it. Nothing
that happens to a playback takes it away (`Turn.Change.inherits`, `Playback.Inherits.beginning`).
-/

namespace Cutscene

variable {β : Type}

/-- No call takes a property from the behaviour of a node. -/
structure Heritable [Behaviour β] (S : Nat → β → Prop) : Prop where
  assign : ∀ {index b}, S index b → ∀ parameters, S index (Behaviour.assign parameters b)
  run : ∀ {index b}, S index b → ∀ ctx vars, S index (Behaviour.run ctx vars b).behaviour
  skip : ∀ {index b}, S index b → ∀ ctx vars, S index (Behaviour.skip ctx vars b).behaviour
  choose : ∀ {index b}, S index b → ∀ ctx vars, S index (Behaviour.choose ctx vars b).behaviour

namespace Playback

/-- The behaviours of the nodes, as far as they have one. -/
def behaviours (p : Playback β) : List (Option β) := p.nodes.map (·.behaviour)

theorem lasting_behaviour : Node.Lasting fun n : Node β => n.behaviour where
  running _ _ := rfl
  memo _ _ := rfl

/-- The behaviours of all nodes have a property. -/
def Inherits (S : Nat → β → Prop) (p : Playback β) : Prop :=
  ∀ index b, p.behaviours[index]? = some (some b) → S index b

variable {S : Nat → β → Prop} {p q : Playback β}

theorem Inherits.congr (h : p.Inherits S) (hb : q.behaviours = p.behaviours) : q.Inherits S :=
  fun index b hsome => h index b (hb ▸ hsome)

theorem Inherits.of_getElem? (h : p.Inherits S) {index : Nat} {node : Node β} {b : β}
    (hn : p.nodes[index]? = some node) (hb : node.behaviour = some b) : S index b :=
  h index b (by rw [behaviours, List.getElem?_map, hn, Option.map_some, hb])

/-- A property that does not ask for the place of a node. -/
theorem Inherits.of_nodes {S : β → Prop} (h : ∀ n ∈ p.nodes, ∀ b, n.behaviour = some b → S b) :
    p.Inherits fun _ b => S b := by
  intro index b hb
  rw [behaviours, List.getElem?_map] at hb
  obtain ⟨n, hn, hsame⟩ := Option.map_eq_some_iff.mp hb
  exact h n (List.mem_of_getElem? hn) b hsame

/-- The behaviour of one node is another one. -/
theorem Inherits.modifyNode (h : p.Inherits S) {index : Nat} {b : β} (hb : S index b)
    {f : Node β → Node β} (hf : ∀ n, (f n).behaviour = some b) :
    (p.modifyNode index f).Inherits S := by
  intro i b' hsome
  rw [behaviours, Playback.modifyNode, List.getElem?_map, List.getElem?_modify] at hsome
  cases hn : p.nodes[i]? with
  | none => simp [hn] at hsome
  | some n =>
    by_cases hi : index = i
    · subst hi
      have hsame : b = b' := by simpa [hn, hf n] using hsome
      exact hsame ▸ hb
    · exact h.of_getElem? hn (by simpa [hn, hi] using hsome)

variable [Behaviour β]

/-- An operation begins with the behaviours that are there. -/
theorem Inherits.beginning (h : p.Inherits S) (w : World β) (op : Operation) :
    (p.beginning w op).playback.Inherits S :=
  h.congr (traits_beginning lasting_behaviour p w op)

end Playback

namespace Turn

variable [Behaviour β] {S : Nat → β → Prop} {t u : Turn β}

theorem inherits_assigned (hS : Heritable S) {index : Nat} {b : β} (h : S index b) :
    S index (t.assigned b) := by
  unfold assigned
  split_ifs
  · exact h
  · exact hS.assign h _

theorem Change.inherits (hS : Heritable S) (hc : t.Change u) (h : t.playback.Inherits S) :
    u.playback.Inherits S := by
  cases hc with
  | rested =>
    exact h.congr (Playback.map_modifyNode _ fun n _ => Playback.lasting_behaviour.running n false)
  | recalled =>
    exact h.congr (Playback.map_modifyNode _ fun n _ => Playback.lasting_behaviour.memo n none)
  | skipped hn hb =>
    exact h.modifyNode (hS.skip (inherits_assigned hS (h.of_getElem? hn hb)) _ _) fun _ => rfl
  | ran hn hb hb' =>
    have hown := h.of_getElem? hn hb
    rcases hb' with rfl | rfl
    · exact h.modifyNode (hS.run hown _ _) fun _ => rfl
    · exact h.modifyNode (hS.run (inherits_assigned hS hown) _ _) fun _ => rfl
  | chosen hn hb =>
    exact h.modifyNode (hS.choose (h.of_getElem? hn hb) _ _) fun _ => rfl
  | killed =>
    exact h.congr (Playback.traits_clearBranches Playback.lasting_behaviour t.playback)
  | _ => exact h

theorem Changes.inherits (hS : Heritable S) (hc : t.Changes u) (h : t.playback.Inherits S) :
    u.playback.Inherits S :=
  hc.invariant (I := fun v : Turn β => v.playback.Inherits S) h
    fun _ _ hv _ hchange => hchange.inherits hS hv

end Turn

end Cutscene
