import Cutscene.Proofs.Record
import Cutscene.Registry

/-!
# Saved registries

Loading what has been saved gives back the records that do not run, have a graph and are necessary,
in their order (`Registry.load_save`). Loading any text at all gives records that saving and loading
does not change any more (`Registry.load_normalizes`).
-/

namespace Cutscene

namespace Record

/-- The record has a saved form. -/
def isSaved (r : Record) : Bool := !(r.running || r.graph.isEmpty)

/-- The record comes back when it is saved and loaded. -/
def comesBack (r : Record) : Bool := !r.running && r.isNamed && r.isNecessary

/-- What is known of a record that has been loaded: saving and loading does not change it. -/
structure Settled (r : Record) : Prop where
  storable : r.Storable
  restored : r.restored = r
  named : r.isNamed = true
  running : r.running = false
  necessary : r.isNecessary = true

theorem Settled.playback {r : Record} (h : r.Settled) : r.playback = none :=
  (congrArg Record.playback h.restored).symm

theorem graph_ne_empty_of_isNamed {r : Record} (h : r.isNamed = true) : r.graph ≠ "" := by
  intro hempty
  rw [isNamed, hempty] at h
  exact absurd h (by decide)

end Record

namespace Registry

/-- The registry has a saved form that can be read. -/
def Storable (reg : Registry) : Prop := ∀ r ∈ reg.records, r.Storable

theorem filterMap_save? (records : List Record) :
    records.filterMap (·.save?) =
      (records.filter (·.isSaved)).map fun r => ":".intercalate r.fields := by
  rw [← List.filterMap_eq_map, List.filterMap_filter]
  refine List.filterMap_congr fun r _ => ?_
  rw [Record.save?_eq, Record.isSaved]
  cases r.running || r.graph.isEmpty <;> rfl

/-- What is saved is cut into the saved forms of the records again. -/
theorem chunks_save {reg : Registry} (h : reg.Storable) :
    ((Text.cut '|' reg.save.toList).filter fun cs => !(Text.trimChars cs).isEmpty) =
      (reg.records.filter (·.isSaved)).map fun r => (":".intercalate r.fields).toList := by
  have hjoined : reg.save.toList = ['|'].intercalate
      ((reg.records.filter (·.isSaved)).map fun r => (":".intercalate r.fields).toList) := by
    rw [save, String.toList_intercalate, filterMap_save?, List.map_map]
    rfl
  have hpipe : ∀ piece ∈ (reg.records.filter (·.isSaved)).map fun r =>
      (":".intercalate r.fields).toList, '|' ∉ piece := by
    intro piece hpiece
    obtain ⟨r, hr, rfl⟩ := List.mem_map.mp hpiece
    exact Record.pipe_not_mem_saved (h r (List.mem_of_mem_filter hr))
  -- A saved form holds colons, so it is not blank.
  have hfull : ∀ piece ∈ (reg.records.filter (·.isSaved)).map fun r =>
      (":".intercalate r.fields).toList, (!(Text.trimChars piece).isEmpty) = true := by
    intro piece hpiece
    obtain ⟨r, -, rfl⟩ := List.mem_map.mp hpiece
    have hcolon : ':' ∈ (":".intercalate r.fields).toList := by
      rw [Record.toList_intercalate_fields]
      exact List.mem_append_right _ List.mem_cons_self
    have hne := Text.trimChars_ne_nil hcolon (by decide)
    simpa using hne
  rw [hjoined]
  cases hpieces : (reg.records.filter (·.isSaved)).map fun r =>
      (":".intercalate r.fields).toList with
  | nil => rfl
  | cons first rest =>
    rw [hpieces] at hpipe hfull
    rw [Text.cut_intercalate hpipe (List.cons_ne_nil first rest), List.filter_eq_self.mpr hfull]

/-- What the registry takes of a record that was saved. -/
theorem settle_restored {r : Record} (hrun : r.running = false) :
    settle r.restored = if r.isNecessary then some r.restored else none := by
  have hself : { r.restored with running := false } = r.restored := by
    rw [Record.restored, hrun]
  have hnecessary : r.restored.isNecessary = r.isNecessary := rfl
  unfold settle
  rw [if_pos (by simp [Record.restored, hrun]), hself]
  dsimp only
  rw [hnecessary]

/-- Loading what was saved gives back the records that do not run, have a graph and are necessary,
in their order. -/
theorem load_save {reg : Registry} (h : reg.Storable) :
    load reg.save =
      (⟨(reg.records.filter (·.comesBack)).map (·.restored)⟩,
        (reg.records.filter (·.isSaved)).flatMap fun r =>
          if r.isNamed then [] else [.recordWithoutGraph]) := by
  have hloaded : ((reg.records.filter (·.isSaved)).map fun r =>
      (":".intercalate r.fields).toList).map Record.load =
      (reg.records.filter (·.isSaved)).map fun r =>
        if r.isNamed then (some r.restored, []) else (none, [.recordWithoutGraph]) := by
    rw [List.map_map]
    refine List.map_congr_left fun r hr => ?_
    rw [Function.comp_apply, Record.load_fields (h r (List.mem_of_mem_filter hr))]
  unfold load
  rw [chunks_save h]
  dsimp only
  rw [hloaded]
  refine Prod.ext (congrArg Registry.mk ?_) ?_
  · rw [List.filterMap_map, List.filterMap_filterMap, List.filterMap_filter,
      ← List.filterMap_eq_map, List.filterMap_filter]
    refine List.filterMap_congr fun r _ => ?_
    unfold Record.isSaved Record.comesBack
    cases hrun : r.running with
    | true => rfl
    | false =>
      cases hnamed : r.isNamed with
      | false => simp [hnamed]
      | true =>
        -- A record with a name has a graph, so it was saved.
        have hgraph := Record.graph_ne_empty_of_isNamed hnamed
        simp [hnamed, hgraph, settle_restored hrun]
  · rw [List.flatMap_map]
    refine congrArg (List.flatMap · _) (funext fun r => ?_)
    -- Only a record without a name is told of.
    split <;> rfl

/-! ### Loading any text -/

theorem settle_cases {q r : Record} (h : settle q = some r) :
    r = { q with running := false } ∧ r.isNecessary = true := by
  unfold settle at h
  dsimp only at h
  split at h
  · split at h
    · rename_i hnecessary
      obtain rfl := Option.some.inj h
      exact ⟨rfl, hnecessary⟩
    · simp at h
  · simp at h

/-- A loaded record is settled. -/
theorem settled_of_mem_load {data : String} {r : Record} (h : r ∈ (load data).1.records) :
    r.Settled := by
  simp only [load, List.mem_filterMap, List.mem_map, Prod.exists] at h
  obtain ⟨q, ⟨_, _, ⟨chunk, hchunk, hload⟩, rfl⟩, hsettle⟩ := h
  have hq : (Record.load chunk).1 = some q := congrArg Prod.fst hload
  have hpipe : '|' ∉ chunk := fun hmem =>
    (Text.mem_of_mem_cut (List.mem_of_mem_filter hchunk) hmem).2 rfl
  obtain ⟨rfl, hnecessary⟩ := settle_cases hsettle
  obtain ⟨⟨hstart, hpoints⟩, hparameters⟩ := Record.storable_of_load hq hpipe
  obtain ⟨hrestored, hnamed⟩ := Record.restored_of_load hq
  exact
    { storable := ⟨⟨hstart, hpoints⟩, hparameters⟩
      restored := congrArg (fun r : Record => { r with running := false }) hrestored
      named := hnamed
      running := rfl
      necessary := hnecessary }

/-- Any text can be loaded. The records that it gives belong to no playback, do not run, are
necessary, and have a graph without blanks around it; and they come back the same when they are
saved and loaded. -/
theorem load_normalizes (data : String) :
    (∀ r ∈ (load data).1.records,
      r.playback = none ∧ r.running = false ∧ r.isNecessary = true ∧
        r.graph ≠ "" ∧ Text.trim r.graph = r.graph) ∧
      load (load data).1.save = ((load data).1, []) := by
  have hsettled : ∀ r ∈ (load data).1.records, r.Settled := fun r hr => settled_of_mem_load hr
  constructor
  · intro r hr
    have hloaded := hsettled r hr
    have hgraph : Text.trim r.graph = r.graph := congrArg Record.graph hloaded.restored
    exact ⟨hloaded.playback, hloaded.running, hloaded.necessary,
      Record.graph_ne_empty_of_isNamed hloaded.named, hgraph⟩
  · -- Whatever has been loaded comes back when it is saved and loaded again.
    have hall : (load data).1.records.filter (·.comesBack) = (load data).1.records := by
      refine List.filter_eq_self.mpr fun r hr => ?_
      have hloaded := hsettled r hr
      simp [Record.comesBack, hloaded.named, hloaded.running, hloaded.necessary]
    have hsame : (load data).1.records.map (·.restored) = (load data).1.records := by
      refine (List.map_congr_left fun r hr => ?_).trans (List.map_id _)
      exact (hsettled r hr).restored
    have hsilent : ∀ r ∈ (load data).1.records.filter (·.isSaved),
        (if r.isNamed then [] else [Notice.recordWithoutGraph]) = [] := fun r hr =>
      if_pos (hsettled r (List.mem_of_mem_filter hr)).named
    rw [load_save fun r hr => (hsettled r hr).storable, hall, hsame,
      List.flatMap_eq_nil_iff.mpr hsilent]

end Registry

end Cutscene
