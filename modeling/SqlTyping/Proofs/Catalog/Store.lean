import SqlTyping.Catalog.Store
import SqlTyping.Proofs.Repetition

/-!
# The store as a log of records

The index of a store says where the records of each key stand (`Store.Indexed`). So `contains` is
membership, and a store that is extended holds what it held and then what is new, in the order of
arrival and without repetitions (`Store.Indexed.records_extend`). What is new is also returned
(`Store.records_addAll`).
-/

namespace SqlTyping

open List

variable {key : RecordKey} {s : Store} (records : List CatalogRecord)

theorem KeyIndex.positions_add (index : KeyIndex) (key k : RecordKey) (i : Nat) :
    (index.add key i).positions k =
      if k = key then index.positions k ++ [i] else index.positions k := by
  induction index with
  | nil =>
    by_cases h : k = key
    · simp [KeyIndex.add, KeyIndex.positions, h]
    · have hb : (k == key) = false := by simpa using h
      simp [KeyIndex.add, KeyIndex.positions, lookup_cons, h, hb]
  | cons entry index ih =>
    obtain ⟨k', positions⟩ := entry
    simp only [KeyIndex.positions] at ih ⊢
    by_cases h : k = k'
    · subst h
      by_cases h' : k = key <;> simp [KeyIndex.add, h']
    · have hb : (k == k') = false := by simpa using h
      by_cases h' : k' = key
      · subst h'; simp [KeyIndex.add, lookup_cons, h, hb]
      · simp [KeyIndex.add, h', lookup_cons, hb, ih]

/-- Where the records with the key stand. -/
def positionsOf (key : RecordKey) : List Nat :=
  (records.zipIdx.filter (·.1.key == key)).map (·.2)

theorem positionsOf_append (r : CatalogRecord) (key : RecordKey) :
    positionsOf (records ++ [r]) key =
      if key = r.key then positionsOf records key ++ [records.length]
      else positionsOf records key := by
  unfold positionsOf
  rw [zipIdx_append, filter_append, map_append]
  by_cases h : key = r.key
  · simp [h]
  · have hb : (r.key == key) = false := by simpa using Ne.symm h
    simp [h, hb]

theorem mem_positionsOf {records : List CatalogRecord} {i : Nat} :
    i ∈ positionsOf records key ↔ ∃ r, records[i]? = some r ∧ r.key = key := by
  simp [positionsOf, mem_zipIdx_iff_getElem?]

theorem pairwise_positionsOf (key : RecordKey) :
    (positionsOf records key).Pairwise (· < ·) := by
  have hall : (records.zipIdx.map (·.2)).Pairwise (· < ·) := by
    simpa [zipIdx_map_snd, ← range_eq_range'] using pairwise_lt_range
  exact hall.sublist (filter_sublist.map _)

namespace Store

/-- The index is right, and no record is there twice. -/
structure Indexed (s : Store) : Prop where
  positions : ∀ key, s.index.positions key = positionsOf s.records key
  nodup : s.records.Nodup

theorem indexed_empty (path : List String) : (Store.empty path).Indexed := ⟨fun _ => rfl, nodup_nil⟩

theorem Indexed.contains_iff (h : s.Indexed) (r : CatalogRecord) :
    s.contains r = true ↔ r ∈ s.records := by
  unfold contains
  rw [h.positions, any_eq_true]
  constructor
  · rintro ⟨i, _, hi⟩
    exact mem_of_getElem? (eq_of_beq hi)
  · intro hr
    obtain ⟨i, hi⟩ := mem_iff_getElem?.1 hr
    exact ⟨i, mem_positionsOf.2 ⟨r, hi, rfl⟩, by simp [hi]⟩

theorem Indexed.push (h : s.Indexed) {r : CatalogRecord} (hr : r ∉ s.records) :
    (s.push r).Indexed := by
  refine ⟨fun key => ?_, ?_⟩
  · rw [Store.push, KeyIndex.positions_add, positionsOf_append, h.positions]
  · exact nodup_append.2
      ⟨h.nodup, by simp, by simpa using fun a ha => ne_of_mem_of_not_mem ha hr⟩

/-! ## Adding records -/

theorem addNew_of_contains {r : CatalogRecord} (hr : s.contains r = true)
    (added : List CatalogRecord) : addNew (s, added) r = (s, added) := by
  rw [addNew, if_pos hr]

theorem addNew_of_not_contains {r : CatalogRecord} (hr : s.contains r = false)
    (added : List CatalogRecord) : addNew (s, added) r = (s.push r, added ++ [r]) := by
  rw [addNew, if_neg (by simp [hr])]

/-- What one record preserves, many preserve. -/
theorem addAll_induction {motive : Store × List CatalogRecord → Prop} {records : List CatalogRecord}
    (h : motive (s, []))
    (hpush : ∀ t added, ∀ r ∈ records, motive (t, added) → t.contains r = false →
      motive (t.push r, added ++ [r])) : motive (s.addAll records) := by
  refine foldlRecOn records addNew h fun t ht r hr => ?_
  cases hc : t.1.contains r with
  | true => rwa [← Prod.eta t, addNew_of_contains hc]
  | false =>
    rw [← Prod.eta t, addNew_of_not_contains hc]
    exact hpush t.1 t.2 r hr ht hc

/-- The records that are returned are those that stand at the end now. -/
theorem records_addAll (s : Store) (records : List CatalogRecord) :
    (s.extend records).records = s.records ++ (s.addAll records).2 := by
  refine addAll_induction (motive := fun t => t.1.records = s.records ++ t.2) (by simp)
    fun t added r _ h _ => ?_
  rw [← append_assoc, ← h]
  rfl

theorem added_addAll (s : Store) (records : List CatalogRecord) :
    (s.addAll records).2 = (s.extend records).addedSince s := by
  rw [addedSince, records_addAll, drop_left]

theorem added_subset (s : Store) (records : List CatalogRecord) :
    (s.addAll records).2 ⊆ records := by
  refine addAll_induction (motive := fun t => t.2 ⊆ records) (nil_subset _) fun t added r hr h _ => ?_
  exact append_subset.2 ⟨h, cons_subset.2 ⟨hr, nil_subset _⟩⟩

theorem Indexed.extend (h : s.Indexed) (l : List CatalogRecord) : (s.extend l).Indexed :=
  addAll_induction (motive := fun t => t.1.Indexed) h fun t _ r _ h hr =>
    h.push fun hm => by simp [(h.contains_iff r).2 hm] at hr

theorem Indexed.records_extend (h : s.Indexed) (l : List CatalogRecord) :
    (s.extend l).records = (s.records ++ l).eraseDups := by
  unfold Store.extend addAll
  generalize ([] : List CatalogRecord) = added
  induction l generalizing s added with
  | nil => simp [Repetition.eraseDups_of_nodup h.nodup]
  | cons r l ih =>
    cases hr : s.contains r with
    | true =>
      have hcons : (r :: l).removeAll s.records = l.removeAll s.records := by
        simp [List.removeAll, (h.contains_iff r).1 hr]
      rw [foldl_cons, addNew_of_contains hr, ih h, eraseDups_append, eraseDups_append, hcons]
    | false =>
      have hmem : r ∉ s.records := fun hm => by simp [(h.contains_iff r).2 hm] at hr
      rw [foldl_cons, addNew_of_not_contains hr, ih (h.push hmem), Store.push, append_assoc]
      rfl

theorem frame_extend (s : Store) (l : List CatalogRecord) :
    (s.extend l).searchPath = s.searchPath ∧ (s.extend l).attempted = s.attempted := by
  exact addAll_induction
    (motive := fun t => t.1.searchPath = s.searchPath ∧ t.1.attempted = s.attempted) ⟨rfl, rfl⟩
    fun _ _ _ _ h _ => h

@[simp] theorem searchPath_extend (s : Store) (l : List CatalogRecord) :
    (s.extend l).searchPath = s.searchPath := (s.frame_extend l).1

@[simp] theorem attempted_extend (s : Store) (l : List CatalogRecord) :
    (s.extend l).attempted = s.attempted := (s.frame_extend l).2

/-! ## Many batches -/

theorem Indexed.append_new (h : s.Indexed) (l : List CatalogRecord) :
    (s.records ++ l).eraseDups = s.records ++ (l.removeAll s.records).eraseDups := by
  rw [eraseDups_append, Repetition.eraseDups_of_nodup h.nodup]

theorem Indexed.foldl_extend (h : s.Indexed) (batches : List (List CatalogRecord)) :
    (batches.foldl Store.extend s).Indexed ∧
      (batches.foldl Store.extend s).records = (s.records ++ batches.flatten).eraseDups := by
  induction batches generalizing s with
  | nil => exact ⟨h, by simp [Repetition.eraseDups_of_nodup h.nodup]⟩
  | cons batch batches ih =>
    obtain ⟨hindexed, hrecords⟩ := ih (h.extend batch)
    refine ⟨hindexed, ?_⟩
    rw [foldl_cons, hrecords, h.records_extend, Repetition.eraseDups_eraseDups_append,
      append_assoc, flatten_cons]

/-- Whatever batches come, the store has their records in the order of arrival, each where it came
first. A further batch adds at the end what is new in it, which is also returned, what is there
stays in its place, and the index has all places of a key in order. -/
theorem log_of_batches (path : List String) (batches : List (List CatalogRecord)) :
    let s := batches.foldl Store.extend (Store.empty path)
    s.records = batches.flatten.eraseDups ∧
    (∀ batch, (s.addAll batch).1.records = s.records ++ (s.addAll batch).2 ∧
      (s.addAll batch).2 = (batch.removeAll s.records).eraseDups) ∧
    (∀ later : List (List CatalogRecord), s.records <+: (later.foldl Store.extend s).records) ∧
    ∀ key, (s.index.positions key).Pairwise (· < ·) ∧
      ∀ i, i ∈ s.index.positions key ↔ ∃ r, s.records[i]? = some r ∧ r.key = key := by
  intro s
  obtain ⟨h, hrecords⟩ := (indexed_empty path).foldl_extend batches
  refine ⟨hrecords, fun batch => ?_, fun later => ?_, fun key => ⟨?_, fun i => ?_⟩⟩
  · refine ⟨records_addAll s batch, ?_⟩
    rw [added_addAll, addedSince, h.records_extend, h.append_new, drop_left]
  · rw [(h.foldl_extend later).2, h.append_new]
    exact prefix_append _ _
  · rw [h.positions]
    exact pairwise_positionsOf _ _
  · rw [h.positions, mem_positionsOf]

/-! ## Requests that have been made -/

@[simp] theorem records_markAttempted (s : Store) (requests : Requests) :
    (s.markAttempted requests).records = s.records := rfl

@[simp] theorem searchPath_markAttempted (s : Store) (requests : Requests) :
    (s.markAttempted requests).searchPath = s.searchPath := rfl

theorem Indexed.markAttempted (h : s.Indexed) (requests : Requests) :
    (s.markAttempted requests).Indexed := ⟨h.positions, h.nodup⟩

theorem mem_attempted_markAttempted {requests : Requests} :
    key ∈ (s.markAttempted requests).attempted ↔ key ∈ s.attempted ∨ key ∈ requests.keys := by
  unfold Store.markAttempted
  simp only
  induction requests.keys generalizing s with
  | nil => simp
  | cons k keys ih =>
    have := @ih { s with attempted := s.attempted.insert k }
    simp only [foldl_cons, mem_cons] at this ⊢
    rw [this, mem_insert_iff]
    grind

end Store

end SqlTyping
