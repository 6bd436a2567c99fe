import Cutscene.Document.Basic
import Cutscene.Proofs.Text.Trim
import Mathlib.Data.List.Forall2
import Mathlib.Data.List.Nodup

/-!
# Documents that compile

`Document.IsWellFormed` says what an author has to keep to, and `Document.Describes` what a graph
has to be like for it to be the one that a document describes; neither mentions the compiler. The
main statement is `compile_iff_isWellFormed`: whatever it has worked on before, a compiler turns a
document into a graph exactly if it is well-formed, and then the document describes that graph.

A compiler that has noted the places of all nodes `Knows` their ids (`note_cases`); from there on
every name is looked up in the same way (`target_eq_ok_iff`), and outputs, nodes and documents are
compiled part by part (`mapM_eq_ok_iff`).
-/

namespace Cutscene

/-- There is nothing but blanks in the text. -/
def Text.IsBlank (s : String) : Prop := ∀ c ∈ s.toList, isBlank c = true

namespace Document

/-- The ids of the nodes, in order. -/
def ids (doc : Document) : List String := doc.nodes.map (·.id)

/-- An output that an author may write: to go on or to stop, a node of the document to go to, or a
graph to run. Blanks around the words do not count. -/
def IsOutput (doc : Document) (output : String) : Prop :=
  Text.trim output = "continue" ∨ Text.trim output = "stop" ∨
    (∃ rest, Text.trim output = "goto:" ++ rest ∧ Text.trim rest ∈ doc.ids) ∨
    ∃ rest, Text.trim output = "run:" ++ rest ∧ ¬ Text.IsBlank rest

/-- What an author has to keep to: the document has an id, its nodes have different ids, outputs are
well-formed, and the start is one of the nodes. -/
structure IsWellFormed (doc : Document) : Prop where
  id : ¬ Text.IsBlank doc.id
  nodup : doc.ids.Nodup
  output : ∀ node ∈ doc.nodes, ∀ output ∈ node.outputs, doc.IsOutput output
  start : ∀ id, doc.start = some id → id ∈ doc.ids

/-- What an output of a document means. -/
inductive Means (doc : Document) (output : String) : Ending → Prop
  | next (h : Text.trim output = "continue") : Means doc output .next
  | stop (h : Text.trim output = "stop") : Means doc output .stop
  | goto {rest : String} {index : Nat} (h : Text.trim output = "goto:" ++ rest)
    (hindex : doc.ids[index]? = some (Text.trim rest)) : Means doc output (.goto index)
  | start {rest : String} (h : Text.trim output = "run:" ++ rest) (hblank : ¬ Text.IsBlank rest) :
    Means doc output (.start (Text.trim rest))

/-- A node of a graph is as an author has written it, with an ending for each output. -/
structure DescribesNode (doc : Document) (written : Document.Node) (made : Graph.Node) : Prop where
  id : made.id = written.id
  kind : made.kind = written.kind
  title : made.title = written.title
  enabled : made.enabled = written.enabled
  params : made.params = .object written.params
  endings : List.Forall₂ doc.Means written.outputs made.endings

/-- A graph is as an author has written it, node by node, and starts at the node that is named, or
at the first. -/
structure Describes (doc : Document) (graph : Graph) : Prop where
  id : graph.id = doc.id
  name : graph.name = if doc.name = "" then doc.id else doc.name
  parameters : graph.parameters = doc.parameters
  settings : graph.settings = doc.settings
  nodes : List.Forall₂ doc.DescribesNode doc.nodes graph.nodes
  start : match doc.start with
    | some id => doc.ids[graph.start]? = some id
    | none => graph.start = 0

end Document

/-! ### Part by part -/

namespace Compiler

theorem bind_eq_ok_iff {ε α γ : Type} {x : Except ε α} {f : α → Except ε γ} {b : γ} :
    (x >>= f) = .ok b ↔ ∃ a, x = .ok a ∧ f a = .ok b := by
  cases x with
  | error error => simp [bind, Except.bind]
  | ok a => simp [bind, Except.bind]

/-- All parts are compiled if each of them is. -/
theorem mapM_eq_ok_iff {ε α γ : Type} {f : α → Except ε γ} {xs : List α} {ys : List γ} :
    xs.mapM f = .ok ys ↔ List.Forall₂ (fun x y => f x = .ok y) xs ys := by
  induction xs generalizing ys with
  | nil =>
    rw [List.mapM_nil, List.forall₂_nil_left_iff]
    exact ⟨fun h => (Except.ok.inj h).symm, fun h => congrArg Except.ok h.symm⟩
  | cons x xs ih =>
    rw [List.mapM_cons, List.forall₂_cons_left_iff]
    simp only [bind_eq_ok_iff, ih]
    constructor
    · rintro ⟨y, hy, ys', hys, heq⟩
      exact ⟨y, ys', hy, hys, (Except.ok.inj heq).symm⟩
    · rintro ⟨y, ys', hy, hys, rfl⟩
      exact ⟨y, hy, ys', hys, rfl⟩

/-! ### Names -/

/-- The places that the compiler has noted are those of the ids. -/
def Knows (c : Compiler) (ids : List String) : Prop :=
  ∀ id index, c.places.get? id = some index ↔ ids[index]? = some id

variable {c : Compiler} {doc : Document} {before : List String}

theorem knows_nil : ({} : Compiler).Knows [] := by
  intro id index
  simp [Table.get?]

theorem Knows.contains_iff (h : c.Knows before) {id : String} :
    c.places.contains id = true ↔ id ∈ before := by
  rw [Table.contains, Option.isSome_iff_exists, List.mem_iff_getElem?]
  exact exists_congr fun index => h id index

/-- The place of one more node is noted. -/
theorem Knows.insert (h : c.Knows before) {id : String} (hnew : id ∉ before) :
    Knows ⟨c.places.insert id before.length⟩ (before ++ [id]) := by
  intro key index
  rw [Table.get?_insert]
  by_cases hkey : key = id
  · subst hkey
    rw [if_pos rfl, List.getElem?_append]
    split_ifs with hindex
    · -- The id would be among those before.
      refine iff_of_false (fun heq => ?_) fun hbefore => hnew (List.mem_of_getElem? hbefore)
      have hlength : before.length = index := Option.some.inj heq
      omega
    · simp only [Option.some.injEq, List.getElem?_singleton]
      split_ifs with hzero
      · exact iff_of_true (by omega) rfl
      · exact iff_of_false (by omega) (by simp)
  · rw [if_neg hkey, h key index, List.getElem?_append]
    split_ifs with hindex
    · rfl
    · rw [List.getElem?_eq_none (by omega)]
      refine iff_of_false (by simp) fun hlast => ?_
      obtain rfl := List.mem_singleton.mp (List.mem_of_getElem? hlast)
      exact hkey rfl

/-- The places of all nodes are noted exactly if their ids are different ones. -/
theorem note_cases (nodes : List Document.Node) (hknows : c.Knows before) (hnodup : before.Nodup) :
    (∃ c', c.note before.length nodes = (c', .ok ()) ∧
      (before ++ nodes.map (·.id)).Nodup ∧ c'.Knows (before ++ nodes.map (·.id))) ∨
    ∃ c' error, c.note before.length nodes = (c', .error error) ∧
      ¬ (before ++ nodes.map (·.id)).Nodup := by
  induction nodes generalizing c before with
  | nil =>
    refine Or.inl ⟨c, rfl, ?_⟩
    rw [List.map_nil, List.append_nil]
    exact ⟨hnodup, hknows⟩
  | cons node rest ih =>
    rw [note]
    by_cases hmem : node.id ∈ before
    · rw [if_pos (hknows.contains_iff.mpr hmem)]
      -- The id is in use, so it stands twice in the list.
      refine Or.inr ⟨_, _, rfl, fun hnd => ?_⟩
      exact (List.nodup_append.mp hnd).2.2 _ hmem _ List.mem_cons_self rfl
    · rw [if_neg fun hcontains => hmem (hknows.contains_iff.mp hcontains)]
      -- The id is new, and noting it leaves all ids different.
      have hnext : (before ++ [node.id]).Nodup := by
        refine List.nodup_append.mpr ⟨hnodup, List.nodup_singleton _, ?_⟩
        rintro id hid _ hlast rfl
        exact hmem (List.mem_singleton.mp hlast ▸ hid)
      have hsplit : before ++ (node :: rest).map (·.id) =
          (before ++ [node.id]) ++ rest.map (·.id) := by simp
      have hlength : before.length + 1 = (before ++ [node.id]).length := by simp
      rw [hsplit, hlength]
      exact ih (hknows.insert hmem) hnext

/-- A name stands for the node that has it. -/
theorem target_eq_ok_iff (h : c.Knows doc.ids) {id : String} {index : Nat} :
    c.target id = .ok index ↔ doc.ids[index]? = some id := by
  rw [← h id index, target]
  cases c.places.get? id <;> simp

/-! ### Outputs -/

theorem afterWord?_eq_some_iff {word text after : String} :
    afterWord? word text = some after ↔ ∃ rest, text = word ++ rest ∧ Text.trim rest = after := by
  unfold afterWord?
  split_ifs with hword
  · -- What follows the word is the rest that is trimmed, and there is only one such rest.
    obtain ⟨tail, htail⟩ := List.isPrefixOf_iff_prefix.mp hword
    have hrest : ∀ rest : String, text = word ++ rest ↔ rest.toList = tail := by
      intro rest
      rw [← String.toList_inj, String.toList_append, ← htail, List.append_cancel_left_eq, eq_comm]
    have hdrop : text.toList.drop word.length = tail := by
      rw [← htail, ← String.length_toList, List.drop_left]
    simp only [Option.some.injEq, hdrop, hrest]
    constructor
    · intro h
      exact ⟨String.ofList tail, String.toList_ofList, h⟩
    · rintro ⟨rest, rfl, h⟩
      rwa [String.ofList_toList]
  · refine iff_of_false (by simp) ?_
    rintro ⟨rest, rfl, -⟩
    exact hword (by simp [String.toList_append])

theorem trim_isEmpty_iff {s : String} : (Text.trim s).isEmpty = true ↔ Text.IsBlank s := by
  rw [Text.trim, String.isEmpty_iff, ← String.toList_inj, String.toList_ofList]
  exact Text.trimChars_eq_nil_iff

/-- What an output means can be told from its first letter. -/
theorem head?_of_means {output : String} {ending : Ending} (h : doc.Means output ending) :
    (Text.trim output).toList.head? = match ending with
      | .next => some 'c'
      | .stop => some 's'
      | .goto _ => some 'g'
      | .start _ => some 'r' := by
  cases h with
  | next h => rw [h]; rfl
  | stop h => rw [h]; rfl
  | goto h => rw [h, String.toList_append]; rfl
  | start h => rw [h, String.toList_append]; rfl

theorem append_left_cancel {word rest rest' : String} (h : word ++ rest = word ++ rest') :
    rest = rest' := by
  rw [← String.toList_inj, String.toList_append, String.toList_append] at h
  exact String.toList_inj.mp (List.append_cancel_left h)

/-- An output is compiled to what it means. -/
theorem ending_eq_ok_iff (hknows : c.Knows doc.ids) {output : String} {ending : Ending} :
    c.ending output = .ok ending ↔ doc.Means output ending := by
  unfold Compiler.ending
  dsimp only
  cases hgoto : afterWord? "goto:" (Text.trim output) with
  | some after =>
    obtain ⟨rest, hrest, rfl⟩ := afterWord?_eq_some_iff.mp hgoto
    dsimp only
    constructor
    · intro h
      cases htarget : c.target (Text.trim rest) with
      | error error => simp [htarget, Except.map] at h
      | ok index =>
        simp only [htarget, Except.map, Except.ok.injEq] at h
        obtain rfl := h
        exact .goto hrest ((target_eq_ok_iff hknows).mp htarget)
    · intro hmeans
      have hhead := head?_of_means hmeans
      rw [hrest, String.toList_append] at hhead
      cases hmeans with
      | goto h hindex =>
        obtain rfl := append_left_cancel (hrest.symm.trans h)
        rw [(target_eq_ok_iff hknows).mpr hindex]
        rfl
      | _ => exact absurd (Option.some.inj hhead) (by decide)
  | none =>
    -- No other word has the letters of this one, so the output does not mean a node.
    have hnot : ∀ rest, Text.trim output ≠ "goto:" ++ rest := by
      intro rest hrest
      have hsome := afterWord?_eq_some_iff.mpr ⟨rest, hrest, rfl⟩
      simp [hgoto] at hsome
    cases hrun : afterWord? "run:" (Text.trim output) with
    | some after =>
      obtain ⟨rest, hrest, rfl⟩ := afterWord?_eq_some_iff.mp hrun
      dsimp only
      constructor
      · intro h
        split_ifs at h with hempty
        obtain rfl := Except.ok.inj h
        exact .start hrest fun hblank => hempty (trim_isEmpty_iff.mpr hblank)
      · intro hmeans
        have hhead := head?_of_means hmeans
        rw [hrest, String.toList_append] at hhead
        cases hmeans with
        | start h hblank =>
          obtain rfl := append_left_cancel (hrest.symm.trans h)
          exact if_neg fun hempty => hblank (trim_isEmpty_iff.mp hempty)
        | _ => exact absurd (Option.some.inj hhead) (by decide)
    | none =>
      have hnot' : ∀ rest, Text.trim output ≠ "run:" ++ rest := by
        intro rest hrest
        have hsome := afterWord?_eq_some_iff.mpr ⟨rest, hrest, rfl⟩
        simp [hrun] at hsome
      dsimp only
      constructor
      · intro h
        split_ifs at h with hnext hstop
        · obtain rfl := Except.ok.inj h
          exact .next hnext
        · obtain rfl := Except.ok.inj h
          exact .stop hstop
      · intro hmeans
        cases hmeans with
        | next h => rw [if_pos h]
        | stop h => rw [if_neg (by rw [h]; decide), if_pos h]
        | goto h => exact absurd h (hnot _)
        | start h => exact absurd h (hnot' _)

/-- The outputs that mean something are those that an author may write. -/
theorem exists_means_iff {output : String} :
    (∃ ending, doc.Means output ending) ↔ doc.IsOutput output := by
  constructor
  · rintro ⟨ending, hmeans⟩
    cases hmeans with
    | next h => exact Or.inl h
    | stop h => exact Or.inr (Or.inl h)
    | goto h hindex => exact Or.inr (Or.inr (Or.inl ⟨_, h, List.mem_of_getElem? hindex⟩))
    | start h hblank => exact Or.inr (Or.inr (Or.inr ⟨_, h, hblank⟩))
  · rintro (h | h | ⟨rest, h, hmem⟩ | ⟨rest, h, hblank⟩)
    · exact ⟨_, .next h⟩
    · exact ⟨_, .stop h⟩
    · obtain ⟨index, hindex⟩ := List.mem_iff_getElem?.mp hmem
      exact ⟨_, .goto h hindex⟩
    · exact ⟨_, .start h hblank⟩

/-! ### Nodes and documents -/

theorem forall₂_iff {α γ : Type} {R S : α → γ → Prop} {xs : List α} {ys : List γ}
    (h : ∀ x y, R x y ↔ S x y) : List.Forall₂ R xs ys ↔ List.Forall₂ S xs ys :=
  ⟨List.Forall₂.imp fun x y => (h x y).mp, List.Forall₂.imp fun x y => (h x y).mpr⟩

theorem exists_forall₂_iff {α γ : Type} {R : α → γ → Prop} {xs : List α} :
    (∃ ys, List.Forall₂ R xs ys) ↔ ∀ x ∈ xs, ∃ y, R x y := by
  induction xs with
  | nil => simp
  | cons x xs ih =>
    simp only [List.forall₂_cons_left_iff, List.forall_mem_cons, ← ih]
    constructor
    · rintro ⟨_, y, ys, hy, hys, rfl⟩
      exact ⟨⟨y, hy⟩, ys, hys⟩
    · rintro ⟨⟨y, hy⟩, ys, hys⟩
      exact ⟨_, y, ys, hy, hys, rfl⟩

theorem exists_of_mem_right {α γ : Type} {R : α → γ → Prop} {xs : List α} {ys : List γ}
    (h : List.Forall₂ R xs ys) {y : γ} (hy : y ∈ ys) : ∃ x ∈ xs, R x y := by
  induction h with
  | nil => exact absurd hy List.not_mem_nil
  | cons hxy _ ih =>
    rcases List.mem_cons.mp hy with rfl | hy
    · exact ⟨_, List.mem_cons_self, hxy⟩
    · obtain ⟨x, hx, hR⟩ := ih hy
      exact ⟨x, List.mem_cons_of_mem _ hx, hR⟩

theorem node_eq_ok_iff (hknows : c.Knows doc.ids) {written : Document.Node} {made : Graph.Node} :
    c.node written = .ok made ↔ doc.DescribesNode written made := by
  -- The endings are read one by one, and each is what its output means.
  have hendings : ∀ endings, written.outputs.mapM c.ending = .ok endings ↔
      List.Forall₂ doc.Means written.outputs endings := by
    intro endings
    rw [mapM_eq_ok_iff]
    exact forall₂_iff fun output ending => ending_eq_ok_iff hknows
  unfold Compiler.node
  constructor
  · intro h
    cases hmade : written.outputs.mapM c.ending with
    | error error => simp [hmade] at h
    | ok endings =>
      simp only [hmade, Except.ok.injEq] at h
      obtain rfl := h
      exact ⟨rfl, rfl, rfl, rfl, rfl, (hendings endings).mp hmade⟩
  · intro h
    obtain ⟨kind, id, title, enabled, endings, params⟩ := made
    obtain ⟨rfl, rfl, rfl, rfl, rfl, hmeans⟩ := h
    rw [(hendings endings).mpr hmeans]

theorem start_eq_ok_iff (hknows : c.Knows doc.ids) {start : Option String} {index : Nat} :
    c.start start = .ok index ↔ match start with
      | some id => doc.ids[index]? = some id
      | none => index = 0 := by
  cases start with
  | some id => exact target_eq_ok_iff hknows
  | none => exact ⟨fun h => (Except.ok.inj h).symm, fun h => congrArg Except.ok h.symm⟩

theorem graph_eq_ok_iff (hknows : c.Knows doc.ids) {graph : Graph} :
    c.graph doc = .ok graph ↔ doc.Describes graph := by
  simp only [Compiler.graph, bind_eq_ok_iff, mapM_eq_ok_iff, start_eq_ok_iff hknows]
  constructor
  · rintro ⟨nodes, hnodes, start, hstart, h⟩
    obtain rfl := Except.ok.inj h
    refine ⟨rfl, ?_, rfl, rfl, (forall₂_iff fun _ _ => node_eq_ok_iff hknows).mp hnodes, hstart⟩
    simp only [String.isEmpty_iff]
  · intro h
    obtain ⟨id, name, nodes, start, parameters, settings⟩ := graph
    obtain ⟨rfl, rfl, rfl, rfl, hnodes, hstart⟩ := h
    refine ⟨nodes, (forall₂_iff fun _ _ => node_eq_ok_iff hknows).mpr hnodes, start, hstart, ?_⟩
    simp only [String.isEmpty_iff]
    rfl

theorem exists_describesNode_iff {written : Document.Node} :
    (∃ made, doc.DescribesNode written made) ↔
      ∀ output ∈ written.outputs, doc.IsOutput output := by
  simp only [← exists_means_iff]
  rw [← exists_forall₂_iff]
  constructor
  · rintro ⟨made, h⟩
    exact ⟨made.endings, h.endings⟩
  · rintro ⟨endings, h⟩
    exact ⟨⟨_, _, _, _, endings, _⟩, rfl, rfl, rfl, rfl, rfl, h⟩

/-- A document describes a graph exactly if its outputs and its start are well-formed. -/
theorem exists_describes_iff :
    (∃ graph, doc.Describes graph) ↔
      (∀ node ∈ doc.nodes, ∀ output ∈ node.outputs, doc.IsOutput output) ∧
        ∀ id, doc.start = some id → id ∈ doc.ids := by
  simp only [← exists_describesNode_iff]
  rw [← exists_forall₂_iff]
  constructor
  · rintro ⟨graph, h⟩
    refine ⟨⟨graph.nodes, h.nodes⟩, fun id hid => ?_⟩
    have hstart := h.start
    rw [hid] at hstart
    exact List.mem_of_getElem? hstart
  · rintro ⟨⟨nodes, hnodes⟩, hstarts⟩
    -- Without a start the first node is the one to begin with.
    have hindex : ∃ index, match doc.start with
        | some id => doc.ids[index]? = some id
        | none => index = 0 := by
      cases hid : doc.start with
      | none => exact ⟨0, rfl⟩
      | some id => exact List.mem_iff_getElem?.mp (hstarts id hid)
    obtain ⟨index, hindex⟩ := hindex
    exact ⟨⟨_, _, nodes, index, _, _⟩, rfl, rfl, rfl, rfl, hnodes, hindex⟩

/-- What a compiler answers does not depend on what it has worked on before. -/
theorem compile_eq_ok_iff {graph : Graph} :
    (c.compile doc).2 = .ok graph ↔
      ¬ Text.IsBlank doc.id ∧ doc.ids.Nodup ∧ doc.Describes graph := by
  unfold Compiler.compile
  by_cases hid : Text.IsBlank doc.id
  · -- A blank id is refused before anything else is looked at.
    simp [trim_isEmpty_iff.mpr hid, hid]
  · have hnot : ¬ (Text.trim doc.id).isEmpty = true := fun h => hid (trim_isEmpty_iff.mp h)
    rw [if_neg hnot]
    rcases note_cases doc.nodes knows_nil List.nodup_nil with
      ⟨c', hnote, hnodup, hknows⟩ | ⟨c', error, hnote, hnodup⟩
    · rw [List.nil_append] at hnodup hknows
      simp only [List.length_nil] at hnote
      -- All ids have been noted, so outputs may lead to any node.
      have hgraph : c'.graph doc = .ok graph ↔ doc.Describes graph := graph_eq_ok_iff hknows
      simp only [hnote, hgraph]
      exact ⟨fun h => ⟨hid, hnodup, h⟩, fun h => h.2.2⟩
    · rw [List.nil_append] at hnodup
      simp only [List.length_nil] at hnote
      -- An id stands twice, and the graph is refused for that.
      simp only [hnote]
      exact iff_of_false (by simp) fun h => hnodup h.2.1

theorem lt_length_of_means {output : String} {index : Nat}
    (h : doc.Means output (.goto index)) : index < doc.nodes.length := by
  cases h with
  | goto _ hindex =>
    obtain ⟨hlt, -⟩ := List.getElem?_eq_some_iff.mp hindex
    rwa [Document.ids, List.length_map] at hlt

/-- Whatever it has compiled or refused before, a compiler turns a document into a graph exactly if
it is well-formed: it has an id, its nodes have different ids, every output is a word or names a
node or a graph, and the start is a node. The graph is then the one that the document describes,
node by node and output by output, and wherever an ending leads, there is a node. -/
theorem compile_iff_isWellFormed (c : Compiler) (doc : Document) :
    ((∃ graph, (c.compile doc).2 = .ok graph) ↔ doc.IsWellFormed) ∧
    ∀ graph, (c.compile doc).2 = .ok graph →
      doc.Describes graph ∧ graph.nodes.length = doc.nodes.length ∧
        ∀ made ∈ graph.nodes, ∀ index, .goto index ∈ made.endings →
          index < graph.nodes.length := by
  constructor
  · simp only [compile_eq_ok_iff, exists_and_left, exists_describes_iff]
    constructor
    · rintro ⟨hid, hnodup, houtput, hstart⟩
      exact ⟨hid, hnodup, houtput, hstart⟩
    · intro h
      exact ⟨h.id, h.nodup, h.output, h.start⟩
  · intro graph hgraph
    obtain ⟨-, -, hdescribes⟩ := compile_eq_ok_iff.mp hgraph
    have hlength := hdescribes.nodes.length_eq
    refine ⟨hdescribes, hlength.symm, fun made hmade index hindex => ?_⟩
    obtain ⟨written, -, hnode⟩ := exists_of_mem_right hdescribes.nodes hmade
    obtain ⟨output, -, hmeans⟩ := exists_of_mem_right hnode.endings hindex
    rw [← hlength]
    exact lt_length_of_means hmeans

/-- A document with two nodes of one name. -/
def twins : Document where
  id := "twins"
  nodes := [⟨"ask", "comment", "", true, [], []⟩, ⟨"ask", "comment", "", true, [], []⟩]

/-- A document whose outputs lead forward and back, with blanks around their words. -/
def errand : Document where
  id := "errand"
  start := some "leave"
  nodes :=
    [⟨"ask", "comment", "", true, [], [" goto: leave ", "run: market"]⟩,
      ⟨"leave", "comment", "", true, [], ["goto:ask", "stop", "continue"]⟩]

/-- A compiler that has refused the twins compiles the errand. -/
theorem compile_iff_isWellFormed_errand :
    (∃ error, (({} : Compiler).compile twins).2 = .error error) ∧ errand.IsWellFormed ∧
    ∃ graph, ((({} : Compiler).compile twins).1.compile errand).2 = .ok graph ∧
      errand.Describes graph ∧ graph.start = 1 ∧
      graph.nodes.map (·.endings) = [[.goto 1, .start "market"], [.goto 0, .stop, .next]] := by
  have hgraph : ∃ graph, ((({} : Compiler).compile twins).1.compile errand).2 = .ok graph ∧
      graph.start = 1 ∧
      graph.nodes.map (·.endings) = [[.goto 1, .start "market"], [.goto 0, .stop, .next]] :=
    ⟨_, rfl, rfl, rfl⟩
  obtain ⟨graph, hok, hstart, hendings⟩ := hgraph
  obtain ⟨hiff, hdescribes⟩ :=
    compile_iff_isWellFormed (({} : Compiler).compile twins).1 errand
  exact ⟨⟨_, rfl⟩, hiff.mp ⟨graph, hok⟩, graph, hok, (hdescribes graph hok).1, hstart, hendings⟩

end Compiler

end Cutscene
