import SqlTyping.Catalog.Memory
import SqlTyping.Proofs.Repetition
import SqlTyping.Proofs.Text

/-!
# Search by home

The home of a record is its kind, its schema and its name, the last two up to case. Where every
record has a schema, a name with a schema stands for one home, and a name without schema for the
first home along the search path that is inhabited (`searchRecords_qualified`,
`searchRecords_bare`).
-/

namespace SqlTyping

open List
open Text (fold)

variable {schema name : String} {kind : RecordKind} {r : CatalogRecord} {path : List String}
  {key : RecordKey} {schema' name' : String} {records more : List CatalogRecord}

/-! ## Homes -/

/-- Does the record live in the schema, under the name and among the records of the kind? -/
def CatalogRecord.livesAt (kind : RecordKind) (schema name : String) (r : CatalogRecord) : Bool :=
  r.kind == kind && Text.eqFold name r.name.name && r.name.isIn schema

theorem QualifiedName.isIn_iff {n : QualifiedName} :
    n.isIn schema = true ↔ ∃ own, n.schema = some own ∧ fold own = fold schema := by
  cases h : n.schema <;> simp [QualifiedName.isIn, h, Text.eqFold_iff]

theorem CatalogRecord.livesAt_iff : r.livesAt kind schema name = true ↔
      r.kind = kind ∧ fold r.name.name = fold name ∧
        ∃ own, r.name.schema = some own ∧ fold own = fold schema := by
  simp [CatalogRecord.livesAt, QualifiedName.isIn_iff, Text.eqFold_iff, and_assoc,
    eq_comm (a := fold name)]

/-- Two homes of one record are the same home. -/
theorem CatalogRecord.livesAt_unique {kind' : RecordKind} (h : r.livesAt kind schema name = true)
    (h' : r.livesAt kind' schema' name' = true) :
    kind = kind' ∧ fold schema = fold schema' ∧ fold name = fold name' := by
  obtain ⟨hk, hn, own, ho, hs⟩ := livesAt_iff.1 h
  obtain ⟨hk', hn', own', ho', hs'⟩ := livesAt_iff.1 h'
  rw [ho, Option.some.injEq] at ho'
  subst ho'
  exact ⟨hk.symm.trans hk', hs.symm.trans hs', hn.symm.trans hn'⟩

theorem CatalogRecord.livesAt_congr (hs : fold schema = fold schema')
    (hn : fold name = fold name') :
    CatalogRecord.livesAt kind schema name = CatalogRecord.livesAt kind schema' name' := by
  funext r
  rw [Bool.eq_iff_iff, livesAt_iff, livesAt_iff, hs, hn]

/-- A list without all but one home is empty or that home. -/
theorem filter_home (records : List CatalogRecord) (kind kind' : RecordKind)
    (schema schema' name name' : String) :
    (records.filter (·.livesAt kind schema name)).filter (·.livesAt kind' schema' name') = [] ∨
      (records.filter (·.livesAt kind schema name)).filter (·.livesAt kind' schema' name') =
        records.filter (·.livesAt kind' schema' name') := by
  by_cases h : kind = kind' ∧ fold schema = fold schema' ∧ fold name = fold name'
  · obtain ⟨rfl, hs, hn⟩ := h
    right
    rw [CatalogRecord.livesAt_congr hs hn]
    simp
  · left
    refine filter_eq_nil_iff.2 fun r hr hr' => h ?_
    exact CatalogRecord.livesAt_unique (mem_filter.1 hr).2 hr'

/-! ## Search -/

/-- The inhabitants of the first home along a path that has any. -/
def firstHome (records : List CatalogRecord) (kind : RecordKind) (name : String) :
    (path : List String) → List CatalogRecord
  | [] => []
  | schema :: path =>
    match records.filter (·.livesAt kind schema name) with
    | [] => firstHome records kind name path
    | found => found

theorem firstHome_cons_of_nil (path : List String)
    (h : records.filter (·.livesAt kind schema name) = []) :
    firstHome records kind name (schema :: path) = firstHome records kind name path := by
  simp [firstHome, h]

theorem firstHome_cons_of_ne_nil (path : List String)
    (h : records.filter (·.livesAt kind schema name) ≠ []) :
    firstHome records kind name (schema :: path) = records.filter (·.livesAt kind schema name) := by
  rw [firstHome]
  split
  · next hnil => exact absurd hnil h
  · rfl

theorem searchRecords_bare (records : List CatalogRecord) (path : List String) (kind : RecordKind)
    (name : String) :
    searchRecords path records ⟨kind, ⟨none, name⟩⟩ = firstHome records kind name path := by
  have hhome (schema : String) :
      (records.filter fun r => r.kind == kind && QualifiedName.admits ⟨none, name⟩ r.name).filter
        (·.name.isIn schema) = records.filter (·.livesAt kind schema name) := by
    rw [filter_filter]
    refine filter_congr fun r _ => ?_
    simp [CatalogRecord.livesAt, QualifiedName.admits, Bool.and_comm]
  simp only [searchRecords, Option.isSome_none, Bool.false_eq_true, if_false, hhome]
  clear hhome
  induction path with
  | nil => rfl
  | cons schema path ih =>
    rw [findSome?_cons, firstHome]
    cases hf : records.filter (·.livesAt kind schema name) with
    | nil => simpa using ih
    | cons r found => simp

theorem firstHome_eq (records : List CatalogRecord) (kind : RecordKind) (name : String)
    (path : List String) :
    firstHome records kind name path = [] ∨ ∃ schema ∈ path,
        firstHome records kind name path = records.filter (·.livesAt kind schema name) := by
  induction path with
  | nil => exact .inl rfl
  | cons schema path ih =>
    by_cases h : records.filter (·.livesAt kind schema name) = []
    · rw [firstHome_cons_of_nil path h]
      rcases ih with h0 | ⟨schema', hm, he⟩
      · exact .inl h0
      · exact .inr ⟨schema', mem_cons_of_mem _ hm, he⟩
    · exact .inr ⟨schema, mem_cons_self, firstHome_cons_of_ne_nil path h⟩

theorem firstHome_eq_nil_iff :
    firstHome records kind name path = [] ↔
      ∀ schema ∈ path, records.filter (·.livesAt kind schema name) = [] := by
  induction path with
  | nil => simp [firstHome]
  | cons schema path ih =>
    rw [forall_mem_cons]
    by_cases h : records.filter (·.livesAt kind schema name) = []
    · rw [firstHome_cons_of_nil path h, ih, and_iff_right h]
    · rw [firstHome_cons_of_ne_nil path h]
      exact iff_of_false h fun hall => h hall.1

/-- Records that share no home with the name change nothing. -/
theorem firstHome_append (h : firstHome more kind name path = []) :
    firstHome (records ++ more) kind name path = firstHome records kind name path := by
  induction path with
  | nil => rfl
  | cons schema path ih =>
    obtain ⟨hschema, hpath⟩ := forall_mem_cons.1 (firstHome_eq_nil_iff.1 h)
    rw [firstHome, firstHome, filter_append, hschema, append_nil, ih (firstHome_eq_nil_iff.2 hpath)]

theorem of_mem_searchRecords (h : r ∈ searchRecords path records key) :
    r ∈ records ∧ r.kind = key.kind := by
  obtain ⟨kind, schema | schema, name⟩ := key
  · rw [searchRecords_bare] at h
    rcases firstHome_eq records kind name path with h0 | ⟨schema, -, he⟩
    · rw [h0] at h; cases h
    · rw [he, mem_filter] at h
      exact ⟨h.1, (CatalogRecord.livesAt_iff.1 h.2).1⟩
  · simp only [searchRecords, Option.isSome_some, if_true, mem_filter, Bool.and_eq_true,
      beq_iff_eq] at h
    exact ⟨h.1, h.2.1⟩

theorem mem_records_of_mem_searchRecords (h : r ∈ searchRecords path records key) :
    r ∈ records := (of_mem_searchRecords h).1

/-- Records that do not answer the key on their own change nothing. -/
theorem searchRecords_append (records : List CatalogRecord)
    (h : ∀ r ∈ more, searchRecords path [r] key = []) :
    searchRecords path (records ++ more) key = searchRecords path records key := by
  obtain ⟨kind, schema | schema, name⟩ := key
  · simp only [searchRecords_bare] at h ⊢
    refine firstHome_append (firstHome_eq_nil_iff.2 fun schema hm => ?_)
    refine filter_eq_nil_iff.2 fun r hr => ?_
    have hone := firstHome_eq_nil_iff.1 (h r hr) schema hm
    exact filter_eq_nil_iff.1 hone r mem_cons_self
  · simp only [searchRecords, Option.isSome_some, if_true] at h ⊢
    rw [filter_append, append_right_eq_self]
    exact filter_eq_nil_iff.2 fun r hr =>
      filter_eq_nil_iff.1 (h r hr) r mem_cons_self

/-- What has an answer has one when records are added. -/
theorem searchRecords_append_ne_nil (h : searchRecords path records key ≠ [])
    (more : List CatalogRecord) : searchRecords path (records ++ more) key ≠ [] := by
  obtain ⟨kind, schema | schema, name⟩ := key
  · rw [searchRecords_bare] at h ⊢
    refine fun hnil => h (firstHome_eq_nil_iff.2 fun schema hm => ?_)
    have happend := firstHome_eq_nil_iff.1 hnil schema hm
    rw [filter_append] at happend
    exact (append_eq_nil_iff.1 happend).1
  · simp only [searchRecords, Option.isSome_some, if_true] at h ⊢
    rw [filter_append]
    exact fun hnil => h (append_eq_nil_iff.1 hnil).1

section

variable {records : List CatalogRecord} (hs : ∀ r ∈ records, r.name.schema.isSome)
include hs

theorem searchRecords_qualified (path : List String) (kind : RecordKind) (schema name : String) :
    searchRecords path records ⟨kind, ⟨some schema, name⟩⟩ =
      records.filter (·.livesAt kind schema name) := by
  simp only [searchRecords, Option.isSome_some, if_true]
  refine filter_congr fun r hr => ?_
  obtain ⟨own, ho⟩ := Option.isSome_iff_exists.1 (hs r hr)
  have hin : r.name.isIn schema = Text.eqFold schema own := by
    rw [Bool.eq_iff_iff, QualifiedName.isIn_iff, Text.eqFold_iff]
    simp [ho, eq_comm]
  simp [CatalogRecord.livesAt, QualifiedName.admits, ho, hin, Bool.and_assoc]

/-- What is found lives in one home. For a name with a schema it is there, and for a name without
one it is on the path. -/
theorem searchRecords_eq (path : List String) (key : RecordKey) :
    searchRecords path records key = [] ∨
      ∃ schema, (key.name.schema = some schema ∨ key.name.schema = none ∧ schema ∈ path) ∧
        searchRecords path records key =
          records.filter (·.livesAt key.kind schema key.name.name) := by
  obtain ⟨kind, schema | schema, name⟩ := key
  · rw [searchRecords_bare]
    rcases firstHome_eq records kind name path with h | ⟨schema, hm, he⟩
    · exact .inl h
    · exact .inr ⟨schema, .inr ⟨rfl, hm⟩, he⟩
  · exact .inr ⟨schema, .inl rfl, searchRecords_qualified hs path kind schema name⟩

theorem mem_of_mem_searchRecords (h : r ∈ searchRecords path records key) : r ∈ records ∧
      ∃ schema, (key.name.schema = some schema ∨ key.name.schema = none ∧ schema ∈ path) ∧
        r.livesAt key.kind schema key.name.name = true := by
  rcases searchRecords_eq hs path key with h0 | ⟨schema, hk, he⟩
  · rw [h0] at h; cases h
  · rw [he] at h
    exact ⟨(mem_filter.1 h).1, schema, hk, (mem_filter.1 h).2⟩

end

/-! ## Selection -/

theorem searchRecords_eraseDups (path : List String) (records : List CatalogRecord)
    (key : RecordKey) :
    searchRecords path records.eraseDups key = (searchRecords path records key).eraseDups := by
  simp only [searchRecords]
  split
  · rw [Repetition.eraseDups_filter]
  · induction path with
    | nil => rfl
    | cons schema path ih =>
      simp only [findSome?_cons, ← Repetition.eraseDups_filter] at ih ⊢
      cases hf : ((records.filter fun r => r.kind == key.kind && key.name.admits r.name).filter
          (·.name.isIn schema)) with
      | nil => simpa using ih
      | cons r found => simp [eraseDups_cons]

/-- Repetitions in a catalog do not show in its answers. -/
theorem selectRecords_eraseDups (path : List String) (records : List CatalogRecord)
    (requests : Requests) :
    selectRecords path records.eraseDups requests = selectRecords path records requests := by
  have h : searchRecords path records.eraseDups =
      fun key => (searchRecords path records key).eraseDups :=
    funext fun key => searchRecords_eraseDups path records key
  rw [selectRecords, h, Repetition.eraseDups_flatMap, selectRecords]

theorem mem_selectRecords {requests : Requests} : r ∈ selectRecords path records requests ↔
      ∃ key ∈ requests.keys, r ∈ searchRecords path records key := by
  simp [selectRecords]

/-- An answer has all inhabitants of a home in their order, or none. -/
theorem selectRecords_filter_home (hs : ∀ r ∈ records, r.name.schema.isSome) (hn : records.Nodup)
    (requests : Requests) (kind : RecordKind) (schema name : String) :
    (selectRecords path records requests).filter (·.livesAt kind schema name) = [] ∨
      (selectRecords path records requests).filter (·.livesAt kind schema name) =
        records.filter (·.livesAt kind schema name) := by
  unfold selectRecords
  rw [← Repetition.eraseDups_filter]
  induction requests.keys with
  | nil => exact .inl rfl
  | cons key keys ih =>
    rw [flatMap_cons, filter_append]
    have hkey : (searchRecords path records key).filter (·.livesAt kind schema name) = [] ∨
        (searchRecords path records key).filter (·.livesAt kind schema name) =
          records.filter (·.livesAt kind schema name) := by
      rcases searchRecords_eq hs path key with h0 | ⟨s, -, he⟩
      · exact .inl (by rw [h0, filter_nil])
      · rw [he]; exact filter_home ..
    rcases hkey with h | h
    · rw [h, nil_append]; exact ih
    · refine .inr ?_
      rw [h, Repetition.eraseDups_append_of_subset, Repetition.eraseDups_of_nodup (hn.filter _)]
      intro r hr
      obtain ⟨hr, hl⟩ := mem_filter.1 hr
      obtain ⟨k, _, hk⟩ := mem_flatMap.1 hr
      exact mem_filter.2 ⟨(mem_of_mem_searchRecords hs hk).1, hl⟩

end SqlTyping
