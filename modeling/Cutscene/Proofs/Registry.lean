import Cutscene.Registry
import Mathlib.Data.List.Nodup
import Mathlib.Tactic.SplitIfs

/-!
# Records of playbacks in the registry

A registry is seen through `Registry.record?`, the record of a playback, and through
`Registry.attached`, the playbacks that have records. Each operation gets one equation or inclusion
for either: `record?_enter`, `record?_pause` and `record?_drop` say that an operation on a playback
leaves the records of others alone, and `Registry.Trim` gathers the ways of thinning out a registry,
none of which touches a record that runs or can be resumed, but for its place in the skip queue.
-/

namespace Cutscene

namespace Registry

/-- The playbacks that have records, in the order of the records. -/
def attached (reg : Registry) : List Nat := reg.records.filterMap (·.playback)

theorem mem_attached {reg : Registry} {id : Nat} :
    id ∈ reg.attached ↔ ∃ r ∈ reg.records, r.playback = some id := by
  simp [attached]

theorem mem_records_of_record? {reg : Registry} {id : Nat} {r : Record}
    (h : reg.record? id = some r) : r ∈ reg.records ∧ r.playback = some id :=
  ⟨List.mem_of_find?_eq_some h, by simpa using List.find?_some h⟩

theorem record?_eq_none_iff {reg : Registry} {id : Nat} :
    reg.record? id = none ↔ id ∉ reg.attached := by
  simp [record?, mem_attached]

/-- With one record for each playback, a record is the one that is found. -/
theorem record?_eq_some_iff {reg : Registry} (h : reg.attached.Nodup) {id : Nat} {r : Record} :
    reg.record? id = some r ↔ r ∈ reg.records ∧ r.playback = some id := by
  refine ⟨mem_records_of_record?, ?_⟩
  obtain ⟨records⟩ := reg
  rintro ⟨hr, hid⟩
  -- The search stops at the first record of the playback, and no other is its record too.
  induction records with
  | nil => simp at hr
  | cons a rest ih =>
    by_cases ha : a.playback = some id
    · have hrest : (∀ q ∈ rest, q.playback ≠ some id) ∧ (attached ⟨rest⟩).Nodup := by
        simpa [attached, ha] using h
      rcases List.mem_cons.mp hr with rfl | hr
      · simp [record?, hid]
      · exact absurd hid (hrest.1 r hr)
    · have hnodup : (attached ⟨rest⟩).Nodup := by
        have hsub := (List.sublist_cons_self a rest).filterMap (·.playback)
        exact h.sublist hsub
      rcases List.mem_cons.mp hr with rfl | hr
      · exact absurd hid ha
      · simpa [record?, ha] using ih hnodup hr

/-! ### Changing the record of a playback -/

/-- A change of records that leaves each with its playback. -/
def KeepsPlayback (f : Record → Record) : Prop := ∀ r, (f r).playback = r.playback

theorem attached_modify {reg : Registry} {id : Nat} {f : Record → Record} (hf : KeepsPlayback f) :
    (reg.modify id f).attached = reg.attached := by
  obtain ⟨records⟩ := reg
  simp only [attached, modify]
  induction records with
  | nil => rfl
  | cons a rest ih =>
    rw [modifyFirst]
    split_ifs
    · simp [List.filterMap_cons, hf a]
    · simp [List.filterMap_cons, ih]

theorem record?_modify {reg : Registry} {id j : Nat} {f : Record → Record}
    (hf : KeepsPlayback f) :
    (reg.modify id f).record? j = if j = id then (reg.record? id).map f else reg.record? j := by
  obtain ⟨records⟩ := reg
  simp only [record?, modify]
  induction records with
  | nil => simp [modifyFirst]
  | cons a rest ih =>
    rw [modifyFirst]
    -- Either this record is the one that changes, or the change is further down.
    by_cases ha : a.playback = some id
    · by_cases hj : j = id
      · subst hj
        simp [ha, hf a]
      · have hne : a.playback ≠ some j := by simpa [ha] using Ne.symm hj
        simp [ha, hj, hf a, Ne.symm hj]
    · by_cases hj : j = id
      · subst hj
        simpa [ha] using ih
      · by_cases haj : a.playback = some j
        · simp [hj, haj]
        · simpa [ha, hj, haj] using ih

/-- The record of a playback that has just started. -/
def startedRecord (reg : Registry) (id : Nat) (graph : String) (start : Nat) (queue : Bool)
    (conversation : Option String) : Record :=
  { (reg.record? id).getD { graph, playback := some id } with
    running := true, queued := queue, start, resumePoints := [], parameters := "", conversation }

theorem record?_enter (reg : Registry) (id j : Nat) (graph : String) (start : Nat) (queue : Bool)
    (conversation : Option String) :
    (reg.enter id graph start queue conversation).record? j =
      if j = id then some (reg.startedRecord id graph start queue conversation)
      else reg.record? j := by
  unfold enter
  dsimp only
  cases hr : reg.record? id with
  | some r =>
    rw [if_pos Option.isSome_some, record?_modify (by intro q; rfl)]
    simp [hr, startedRecord]
  | none =>
    -- Without a record yet, the new one comes behind the others.
    have hnone : ∀ q ∈ reg.records, q.playback ≠ some id := by
      simpa [record?] using hr
    simp only [Option.isSome_none, Bool.false_eq_true, if_false]
    simp only [record?, List.find?_append]
    by_cases hj : j = id
    · subst hj
      have hfind : reg.records.find? (·.playback = some j) = none := hr
      simp [hfind, startedRecord, hr]
    · simp [hj, Ne.symm hj]

theorem attached_enter (reg : Registry) (id : Nat) (graph : String) (start : Nat) (queue : Bool)
    (conversation : Option String) :
    (reg.enter id graph start queue conversation).attached =
      if id ∈ reg.attached then reg.attached else reg.attached ++ [id] := by
  unfold enter
  dsimp only
  by_cases h : id ∈ reg.attached
  · have hsome : (reg.record? id).isSome := by
      rw [Option.isSome_iff_ne_none]
      intro hn
      exact record?_eq_none_iff.mp hn h
    rw [if_pos hsome, if_pos h, attached_modify (by intro q; rfl)]
  · rw [if_neg h, if_neg (by simp [record?_eq_none_iff.mpr h])]
    simp [attached]

theorem record?_pause (reg : Registry) (id j : Nat) (points : List Nat) (parameters : String) :
    (reg.pause id points parameters).record? j =
      if j = id then
        (reg.record? id).map fun r =>
          { r with running := false, resumePoints := points, parameters }
      else reg.record? j :=
  record?_modify fun _ => rfl

theorem attached_pause (reg : Registry) (id : Nat) (points : List Nat) (parameters : String) :
    (reg.pause id points parameters).attached = reg.attached :=
  attached_modify fun _ => rfl

theorem record?_drop (reg : Registry) (id j : Nat) :
    (reg.drop id).record? j = if j = id then none else reg.record? j := by
  simp only [record?, drop, List.find?_filter]
  split_ifs with h
  · subst h
    simp
  · congr 1
    funext r
    by_cases hr : r.playback = some j <;> simp [hr, h]

theorem attached_drop_sublist (reg : Registry) (id : Nat) :
    (reg.drop id).attached.Sublist reg.attached :=
  List.filter_sublist.filterMap _

theorem record?_reset (reg : Registry) (id j : Nat) (unqueue : Bool) :
    (reg.modify id (·.reset unqueue)).record? j =
      if j = id then (reg.record? id).map (·.reset unqueue) else reg.record? j :=
  record?_modify fun _ => rfl

theorem attached_reset (reg : Registry) (id : Nat) (unqueue : Bool) :
    (reg.modify id (·.reset unqueue)).attached = reg.attached :=
  attached_modify fun _ => rfl

/-! ### What is there besides the record of a playback -/

/-- A change of the record of a playback does not matter to those who do not look at it. -/
theorem filter_modifyFirst {id : Nat} {f : Record → Record} {keep : Record → Bool}
    (hkeep : ∀ r, r.playback = some id → keep r = false ∧ keep (f r) = false)
    (records : List Record) : (modifyFirst id f records).filter keep = records.filter keep := by
  induction records with
  | nil => rfl
  | cons r rest ih =>
    rw [modifyFirst]
    split_ifs with hr
    · obtain ⟨hold, hnew⟩ := hkeep r hr
      rw [List.filter_cons_of_neg (by simp [hnew]), List.filter_cons_of_neg (by simp [hold])]
    · rw [List.filter_cons, List.filter_cons, ih]

theorem drop_eq_self {reg : Registry} {id : Nat} (h : reg.record? id = none) :
    reg.drop id = reg := by
  refine congrArg Registry.mk (List.filter_eq_self.mpr fun r hr => ?_)
  simpa using List.find?_eq_none.mp h r hr

theorem mem_drop {reg : Registry} {id : Nat} {r : Record} :
    r ∈ (reg.drop id).records ↔ r ∈ reg.records ∧ r.playback ≠ some id :=
  List.mem_filter.trans (and_congr_right fun _ => decide_eq_true_iff)

theorem drop_enter (reg : Registry) (id : Nat) (graph : String) (start : Nat) (queue : Bool)
    (conversation : Option String) :
    (reg.enter id graph start queue conversation).drop id = reg.drop id := by
  unfold enter drop
  dsimp only
  split_ifs
  · exact congrArg Registry.mk (filter_modifyFirst (fun r hr => by simp [hr]) reg.records)
  · simp

/-- Of the records of which no playback has two, one that changes counts for itself. -/
theorem any_modifyFirst_eq {id : Nat} {f : Record → Record} {q : Record → Bool} {r : Record}
    {reg : Registry} (hn : reg.attached.Nodup) (hr : reg.record? id = some r) :
    (modifyFirst id f reg.records).any q = (q (f r) || (reg.drop id).records.any q) := by
  obtain ⟨records⟩ := reg
  simp only [drop]
  induction records with
  | nil => simp [record?] at hr
  | cons a rest ih =>
    rw [modifyFirst]
    by_cases ha : a.playback = some id
    · have hfound : a = r := by simpa [record?, ha] using hr
      have hothers : ∀ b ∈ rest, b.playback ≠ some id := by
        have hnodup : id ∉ rest.filterMap (·.playback) := by
          simp only [attached, List.filterMap_cons, ha, List.nodup_cons] at hn
          exact hn.1
        intro b hb hid
        exact hnodup (List.mem_filterMap.mpr ⟨b, hb, hid⟩)
      have hrest : rest.filter (·.playback ≠ some id) = rest :=
        List.filter_eq_self.mpr fun b hb => by simpa using hothers b hb
      rw [if_pos ha, List.filter_cons_of_neg (by simp [ha]), hrest, List.any_cons, hfound]
    · have hrecord : record? ⟨rest⟩ id = some r := by simpa [record?, ha] using hr
      have hnodup : (attached ⟨rest⟩).Nodup :=
        hn.sublist ((List.sublist_cons_self a rest).filterMap _)
      rw [if_neg ha, List.filter_cons_of_pos (by simp [ha]), List.any_cons, List.any_cons,
        ih hnodup hrecord]
      exact Bool.or_left_comm ..

/-- Once a playback is entered its graph runs, and besides it those that ran anyway. -/
theorem isGraphRunning_enter {reg : Registry} {id : Nat} {graph : String}
    (hn : reg.attached.Nodup) (hg : ∀ r, reg.record? id = some r → r.graph = graph) (start : Nat)
    (queue : Bool) (conversation : Option String) (name : String) :
    (reg.enter id graph start queue conversation).isGraphRunning name =
      (decide (graph = name) || (reg.drop id).isGraphRunning name) := by
  unfold enter isGraphRunning
  dsimp only
  cases hr : reg.record? id with
  | some r =>
    rw [if_pos Option.isSome_some, modify, any_modifyFirst_eq hn hr]
    simp [hg r hr]
  | none =>
    rw [if_neg (by simp), drop_eq_self hr, List.any_append]
    simp [Bool.or_comm]

theorem isLive_iff {reg : Registry} {id : Nat} :
    reg.isLive id = true ↔ ∃ r, reg.record? id = some r ∧ r.running = true := by
  unfold isLive
  cases reg.record? id <;> simp

/-! ### Thinning out the registry -/

/-- The ways in which records go that no playback asks for. -/
inductive Trim (reg : Registry) : Registry → Prop
  /-- The unnecessary ones go. -/
  | purge : Trim reg reg.purge
  /-- The skip queue is emptied. -/
  | unqueue : Trim reg ⟨reg.records.map fun r => { r with queued := false }⟩
  /-- Those of a graph go that come from a save. -/
  | dropDetached (graph : String) : Trim reg (reg.dropDetached graph)
  /-- The first of those goes that is paused. -/
  | dropDetachedPaused (graph : String) : Trim reg (reg.dropDetachedPaused graph)

theorem Trim.attached_sublist {reg reg' : Registry} (h : Trim reg reg') :
    reg'.attached.Sublist reg.attached := by
  cases h with
  | purge => exact List.filter_sublist.filterMap _
  | unqueue =>
    simp only [attached, List.filterMap_map]
    exact List.Sublist.refl _
  | dropDetached graph => exact List.filter_sublist.filterMap _
  | dropDetachedPaused graph => exact List.eraseP_sublist.filterMap _

/-- What is left is what was there, but for its place in the skip queue. -/
theorem Trim.exists_mem {reg reg' : Registry} (h : Trim reg reg') {r : Record}
    (hr : r ∈ reg'.records) : ∃ q ∈ reg.records, ∃ queued, r = { q with queued } := by
  cases h with
  | purge => exact ⟨r, List.mem_of_mem_filter hr, r.queued, rfl⟩
  | unqueue =>
    obtain ⟨q, hq, rfl⟩ := List.mem_map.mp hr
    exact ⟨q, hq, false, rfl⟩
  | dropDetached graph => exact ⟨r, List.mem_of_mem_filter hr, r.queued, rfl⟩
  | dropDetachedPaused graph => exact ⟨r, List.mem_of_mem_eraseP hr, r.queued, rfl⟩

theorem Trim.record?_eq_none {reg reg' : Registry} (h : Trim reg reg') {id : Nat}
    (hr : reg.record? id = none) : reg'.record? id = none := by
  rw [record?_eq_none_iff] at hr ⊢
  intro hid
  exact hr (h.attached_sublist.subset hid)

theorem record?_purge {reg : Registry} (hn : reg.attached.Nodup) (id : Nat) :
    reg.purge.record? id = (reg.record? id).filter (·.isNecessary) := by
  have hn' : reg.purge.attached.Nodup := hn.sublist Trim.purge.attached_sublist
  cases hr : reg.record? id with
  | none => exact Trim.purge.record?_eq_none hr
  | some r =>
    obtain ⟨hmem, hid⟩ := mem_records_of_record? hr
    by_cases hnec : r.isNecessary
    · rw [Option.filter_some_pos hnec, record?_eq_some_iff hn']
      exact ⟨List.mem_filter.mpr ⟨hmem, hnec⟩, hid⟩
    · rw [Option.filter_some_neg (by simpa using hnec), record?_eq_none_iff, mem_attached]
      -- A record left for the playback would be the unnecessary one.
      rintro ⟨q, hq, hqid⟩
      obtain ⟨hq, hqnec⟩ := List.mem_filter.mp hq
      have hqr : reg.record? id = some q := (record?_eq_some_iff hn).mpr ⟨hq, hqid⟩
      obtain rfl : r = q := Option.some.inj (hr.symm.trans hqr)
      exact hnec hqnec

theorem record?_unqueue (reg : Registry) (id : Nat) :
    (⟨reg.records.map fun r => { r with queued := false }⟩ : Registry).record? id =
      (reg.record? id).map fun r => { r with queued := false } := by
  simp only [record?, List.find?_map]
  rfl

theorem record?_dropDetached (reg : Registry) (graph : String) (id : Nat) :
    (reg.dropDetached graph).record? id = reg.record? id := by
  simp only [record?, dropDetached, List.find?_filter]
  congr 1
  funext r
  by_cases hr : r.playback = some id <;> simp [hr]

theorem record?_dropDetachedPaused (reg : Registry) (graph : String) (id : Nat) :
    (reg.dropDetachedPaused graph).record? id = reg.record? id := by
  obtain ⟨records⟩ := reg
  simp only [record?, dropDetachedPaused]
  induction records with
  | nil => rfl
  | cons a rest ih =>
    by_cases ha : isDetachedPaused graph a
    · -- What goes is a record without a playback, so it is not the one that is looked for.
      have hnone : a.playback ≠ some id := by
        unfold isDetachedPaused at ha
        cases hp : a.playback <;> simp [hp] at ha ⊢
      rw [List.eraseP_cons_of_pos ha, List.find?_cons_of_neg (by simpa using hnone)]
    · rw [List.eraseP_cons_of_neg ha, List.find?_cons, List.find?_cons, ih]

/-- A record that goes neither ran nor could be resumed; one that stays is the same, but for its
place in the skip queue. -/
theorem Trim.record? {reg reg' : Registry} (h : Trim reg reg') (hn : reg.attached.Nodup)
    {id : Nat} {r : Record} (hr : reg.record? id = some r) :
    (∃ queued, reg'.record? id = some { r with queued }) ∨
      reg'.record? id = none ∧ r.running = false ∧ r.resumePoints = [] := by
  cases h with
  | purge =>
    rw [record?_purge hn, hr]
    by_cases hnec : r.isNecessary
    · exact Or.inl ⟨r.queued, Option.filter_some_pos hnec⟩
    · have hidle : r.running = false ∧ r.resumePoints = [] := by
        simp_all [Record.isNecessary]
      exact Or.inr ⟨Option.filter_some_neg (by simpa using hnec), hidle⟩
  | unqueue => exact Or.inl ⟨false, by rw [record?_unqueue, hr]; rfl⟩
  | dropDetached graph => exact Or.inl ⟨r.queued, by rw [record?_dropDetached, hr]⟩
  | dropDetachedPaused graph => exact Or.inl ⟨r.queued, by rw [record?_dropDetachedPaused, hr]⟩

/-! ### The skip queue -/

/-- The records of a registry, none of them in the skip queue. -/
def unqueued (reg : Registry) : Registry := ⟨reg.records.map fun r => { r with queued := false }⟩

theorem takeQueue_eq (reg : Registry) :
    reg.takeQueue = (reg.records.filterMap (·.skipRequest?), reg.unqueued.purge) := rfl

theorem mem_takeQueue {reg : Registry} {request : SkipRequest} (h : request ∈ reg.takeQueue.1) :
    ∃ r ∈ reg.records, r.queued = true ∧
      request = ⟨r.graph, r.playback, r.start, r.conversation⟩ := by
  obtain ⟨r, hr, hrequest⟩ := List.mem_filterMap.mp h
  unfold Record.skipRequest? at hrequest
  split_ifs at hrequest with hqueued
  exact ⟨r, hr, hqueued, (Option.some.inj hrequest).symm⟩

/-- A playback whose record does not wait is not asked to skip. -/
theorem not_requested {reg : Registry} (h : reg.attached.Nodup) {id : Nat} {r : Record}
    (hr : reg.record? id = some r) (hq : r.queued = false) {request : SkipRequest}
    (hrequest : request ∈ reg.takeQueue.1) : request.playback ≠ some id := by
  obtain ⟨other, hmem, hqueued, rfl⟩ := mem_takeQueue hrequest
  intro hid
  obtain rfl := Option.some.inj (hr.symm.trans ((record?_eq_some_iff h).mpr ⟨hmem, hid⟩))
  simp [hq] at hqueued

/-- Requests are in the order of the records. -/
theorem playbacks_takeQueue_sublist (reg : Registry) :
    (reg.takeQueue.1.filterMap (·.playback)).Sublist reg.attached := by
  obtain ⟨records⟩ := reg
  simp only [takeQueue_eq, attached]
  induction records with
  | nil => exact .slnil
  | cons r rest ih =>
    unfold Record.skipRequest? at ih ⊢
    cases hqueued : r.queued <;> cases hid : r.playback <;>
      simp only [List.filterMap_cons, hqueued, hid, if_true, Bool.false_eq_true, if_false]
    · exact ih
    · exact ih.cons _
    · exact ih
    · exact ih.cons_cons _

/-- No playback has two requests. -/
theorem pairwise_takeQueue {reg : Registry} (h : reg.attached.Nodup) :
    reg.takeQueue.1.Pairwise fun x y => ∀ id, x.playback = some id → y.playback ≠ some id := by
  have hnodup := reg.playbacks_takeQueue_sublist.nodup h
  rw [List.Nodup, List.pairwise_filterMap] at hnodup
  exact hnodup.imp fun hne id hx hy => hne id hx id hy rfl

/-- What is left to be skipped once a playback is over. -/
theorem takeQueue_drop (reg : Registry) (id : Nat) :
    (reg.drop id).takeQueue.1 = reg.takeQueue.1.filter (·.playback ≠ some id) := by
  simp only [takeQueue_eq, drop, List.filterMap_filter, List.filter_filterMap]
  refine List.filterMap_congr fun r _ => ?_
  unfold Record.skipRequest?
  by_cases hid : r.playback = some id <;> cases r.queued <;> simp [hid, Option.filter]

theorem unqueued_eq_self {reg : Registry} (h : reg.takeQueue.1 = []) : reg.unqueued = reg := by
  have hnot : ∀ r ∈ reg.records, ({ r with queued := false } : Record) = r := by
    intro r hr
    have hnone : r.skipRequest? = none := List.filterMap_eq_nil_iff.mp h r hr
    unfold Record.skipRequest? at hnone
    split_ifs at hnone with hqueued
    obtain ⟨⟩ := r
    simpa using hqueued
  exact congrArg Registry.mk ((List.map_congr_left hnot).trans (List.map_id _))

/-- A playback that is over is over whether the queue is emptied before or after. -/
theorem unqueued_purge_drop (reg : Registry) (id : Nat) :
    reg.unqueued.purge.drop id = (reg.drop id).unqueued.purge := by
  simp only [unqueued, purge, drop, List.filter_map, List.filter_filter, mk.injEq]
  refine congrArg _ (List.filter_congr fun r _ => ?_)
  exact Bool.and_comm _ _

/-- Whoever runs does so whether or not there is a queue. -/
theorem isGraphRunning_unqueued_purge (reg : Registry) :
    reg.unqueued.purge.isGraphRunning = reg.isGraphRunning := by
  funext graph
  simp only [isGraphRunning, unqueued, purge, List.any_filter, List.any_map]
  refine congrArg reg.records.any (funext fun r => ?_)
  cases hrun : r.running <;> simp [Record.isNecessary, hrun]

end Registry

end Cutscene
