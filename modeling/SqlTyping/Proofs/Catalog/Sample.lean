import SqlTyping.Proofs.Catalog.Needs
import SqlTyping.Proofs.Catalog.Search
import SqlTyping.Proofs.Catalog.Store

/-!
# Stores that sample a catalog

A store samples a catalog if it has each home of the catalog in full or not at all
(`Store.Samples`). A key is answered by a store that has every record the catalog has for it; then
the store and the catalog agree on the key (`Samples.search_eq`).

A store does not ask for what it can satisfy. That is sound for a key that is definite, that is,
whose name stands for one schema only: a definite key that can be satisfied is answered
(`Samples.answered_of_satisfies`). For a name that two schemas of the search path have, it is not:
the store may have the records of one schema while the catalog would answer with those of the other.
-/

namespace SqlTyping

open List
open Text (fold)

variable {key : RecordKey} {kind : RecordKind} {records all : List CatalogRecord}
  {path : List String} {schema name : String} {r r' : CatalogRecord} {s : Store} {n : QualifiedName}

/-- Enums and composite types share one space of names; every other kind has its own. -/
def RecordKind.space : RecordKind → RecordKind
  | .composite => .enum
  | kind => kind

/-- A catalog as a database has it: every record is in a schema, types have names, and no schema has
an enum and a composite type of one name. -/
structure WellFormed (records : List CatalogRecord) : Prop where
  schema : ∀ r ∈ records, r.name.schema.isSome
  typeName : ∀ r ∈ records, r.kind.space = .enum → r.name.name ≠ ""
  oneKind : ∀ r ∈ records, ∀ r' ∈ records, r.kind.space = r'.kind.space →
    fold r.name.name = fold r'.name.name →
    r.name.schema.map fold = r'.name.schema.map fold → r.kind = r'.kind

theorem WellFormed.eraseDups (h : WellFormed records) : WellFormed records.eraseDups where
  schema r hr := h.schema r (mem_eraseDups.1 hr)
  typeName r hr := h.typeName r (mem_eraseDups.1 hr)
  oneKind r hr r' hr' := h.oneKind r (mem_eraseDups.1 hr) r' (mem_eraseDups.1 hr')

/-- Along the path, the name of the key belongs to one schema only, up to case. A name with a schema
always does. -/
def Definite (path : List String) (records : List CatalogRecord) (key : RecordKey) : Prop :=
  key.name.schema = none → ∀ r ∈ records, ∀ r' ∈ records,
    r.kind.space = key.kind.space → r'.kind.space = key.kind.space →
    fold r.name.name = fold key.name.name → fold r'.name.name = fold key.name.name →
    ∀ a ∈ path, ∀ b ∈ path, r.name.isIn a = true → r'.name.isIn b = true → fold a = fold b

theorem Definite.eraseDups (h : Definite path records key) : Definite path records.eraseDups key :=
  fun hn r hr r' hr' => h hn r (mem_eraseDups.1 hr) r' (mem_eraseDups.1 hr')

theorem CatalogRecord.isIn_of_livesAt (h : r.livesAt kind schema name = true) :
    r.name.isIn schema = true :=
  QualifiedName.isIn_iff.2 (livesAt_iff.1 h).2.2

/-- Records that a definite name stands for, whatever their kinds in its space, live in one home. -/
theorem Definite.one_home (hw : WellFormed all) (hd : Definite path all key)
    (hspace : kind.space = key.kind.space) (hr : r ∈ all) (hr' : r' ∈ all) {schema' : String}
    (hs : key.name.schema = some schema ∨ key.name.schema = none ∧ schema ∈ path)
    (hs' : key.name.schema = some schema' ∨ key.name.schema = none ∧ schema' ∈ path)
    (hl : r.livesAt kind schema key.name.name = true)
    (hl' : r'.livesAt key.kind schema' key.name.name = true) :
    r'.livesAt kind schema key.name.name = true := by
  obtain ⟨hk, hn, own, ho, hown⟩ := CatalogRecord.livesAt_iff.1 hl
  obtain ⟨hk', hn', own', ho', hown'⟩ := CatalogRecord.livesAt_iff.1 hl'
  have hfold : fold schema = fold schema' := by
    rcases hs with hs | ⟨hs, hp⟩
    · rcases hs' with hs' | ⟨hs', -⟩
      · rw [hs, Option.some.injEq] at hs'; rw [hs']
      · rw [hs] at hs'; cases hs'
    · rcases hs' with hs' | ⟨-, hp'⟩
      · rw [hs] at hs'; cases hs'
      · exact hd hs r hr r' hr' (by rw [hk, hspace]) (by rw [hk']) hn hn' schema hp schema' hp'
          (CatalogRecord.isIn_of_livesAt hl) (CatalogRecord.isIn_of_livesAt hl')
  have hkind : r.kind = r'.kind := by
    refine hw.oneKind r hr r' hr' (by rw [hk, hk', hspace]) (hn.trans hn'.symm) ?_
    rw [ho, ho', Option.map_some, Option.map_some, hown, hown', hfold]
  refine CatalogRecord.livesAt_iff.2 ⟨by rw [← hkind, hk], hn', own', ho', ?_⟩
  rw [hown', hfold]

/-! ## Samples -/

/-- Is everything that the catalog has for the key among the records? -/
def Answered (path : List String) (all records : List CatalogRecord) (key : RecordKey) : Prop :=
  ∀ r ∈ searchRecords path all key, r ∈ records

theorem Answered.mono {more : List CatalogRecord} (h : Answered path all records key)
    (hsub : ∀ r ∈ records, r ∈ more) : Answered path all more key := fun r hr => hsub r (h r hr)

/-- The store has some homes of the catalog in full, and nothing else. What has been asked for is
answered. -/
structure Store.Samples (path : List String) (all : List CatalogRecord) (s : Store) : Prop where
  indexed : s.Indexed
  searchPath : s.searchPath = path
  subset : ∀ r ∈ s.records, r ∈ all
  homes : ∀ kind schema name, s.records.filter (·.livesAt kind schema name) = [] ∨
    s.records.filter (·.livesAt kind schema name) = all.filter (·.livesAt kind schema name)
  attempted : ∀ key ∈ s.attempted, Answered path all s.records key

namespace Store.Samples

theorem empty (path : List String) (all : List CatalogRecord) :
    (Store.empty path).Samples path all where
  indexed := indexed_empty path
  searchPath := rfl
  subset r hr := by cases hr
  homes _ _ _ := .inl rfl
  attempted key hk := by cases hk

section

variable {path : List String} {all : List CatalogRecord} {s : Store} (hs : s.Samples path all)
  (hschema : ∀ r ∈ all, r.name.schema.isSome)
include hs

theorem filter_eq (h : ∀ r ∈ all.filter (·.livesAt kind schema name), r ∈ s.records) :
    s.records.filter (·.livesAt kind schema name) = all.filter (·.livesAt kind schema name) := by
  rcases hs.homes kind schema name with h0 | h0
  · rw [h0]
    refine (eq_nil_iff_forall_not_mem.2 fun r hr => ?_).symm
    have hmem := mem_filter.2 ⟨h r hr, (mem_filter.1 hr).2⟩
    rw [h0] at hmem; cases hmem
  · exact h0

/-- All inhabitants of a home are there if one is. -/
theorem mem_of_home (hr : r ∈ s.records) (hl : r.livesAt kind schema name = true) (hr' : r' ∈ all)
    (hl' : r'.livesAt kind schema name = true) : r' ∈ s.records := by
  have hmem := mem_filter.2 ⟨hr, hl⟩
  rcases hs.homes kind schema name with h0 | h0
  · rw [h0] at hmem; cases hmem
  · have hmem' := mem_filter.2 ⟨hr', hl'⟩
    rw [← h0] at hmem'
    exact (mem_filter.1 hmem').1

theorem firstHome_eq (schemas : List String)
    (h : ∀ r ∈ firstHome all kind name schemas, r ∈ s.records) :
    firstHome s.records kind name schemas = firstHome all kind name schemas := by
  induction schemas with
  | nil => rfl
  | cons schema schemas ih =>
    by_cases hnil : all.filter (·.livesAt kind schema name) = []
    · have hown : s.records.filter (·.livesAt kind schema name) = [] := by
        rcases hs.homes kind schema name with h0 | h0
        · exact h0
        · exact h0.trans hnil
      rw [firstHome_cons_of_nil _ hnil] at h ⊢
      rw [firstHome_cons_of_nil _ hown]
      exact ih h
    · rw [firstHome_cons_of_ne_nil _ hnil] at h ⊢
      have hown := hs.filter_eq h
      rw [firstHome_cons_of_ne_nil _ (by rwa [hown]), hown]

include hschema

/-- For a key that is answered, the store finds what the catalog finds. -/
theorem search_eq (h : Answered path all s.records key) :
    searchRecords path s.records key = searchRecords path all key := by
  have hown : ∀ r ∈ s.records, r.name.schema.isSome := fun r hr => hschema r (hs.subset r hr)
  obtain ⟨kind, schema | schema, name⟩ := key
  · simp only [Answered, searchRecords_bare] at h ⊢
    exact hs.firstHome_eq path h
  · simp only [Answered, searchRecords_qualified hschema, searchRecords_qualified hown] at h ⊢
    exact hs.filter_eq h

end

end Store.Samples

/-! ## Satisfied keys -/

theorem Store.enum?_isSome_iff : (s.enum? n).isSome = true ↔ ∃ r, r ∈ s.search .enum n := by
  rw [enum?, findSome?_isSome_iff]
  refine ⟨fun ⟨r, hr, _⟩ => ⟨r, hr⟩, fun ⟨r, hr⟩ => ?_⟩
  have hkind := (of_mem_searchRecords hr).2
  cases r with
  | enum name variants => exact ⟨_, hr, rfl⟩
  | _ => cases hkind

theorem Store.composite?_isSome_iff :
    (s.composite? n).isSome = true ↔ ∃ r, r ∈ s.search .composite n := by
  rw [composite?, findSome?_isSome_iff]
  refine ⟨fun ⟨r, hr, _⟩ => ⟨r, hr⟩, fun ⟨r, hr⟩ => ?_⟩
  have hkind := (of_mem_searchRecords hr).2
  cases r with
  | composite name attributes => exact ⟨_, hr, rfl⟩
  | _ => cases hkind

/-- A key is satisfied if something is found in its space of names. -/
theorem Store.satisfies_iff : s.satisfies key = true ↔
      ∃ kind, kind.space = key.kind.space ∧ ∃ r, r ∈ s.search kind key.name := by
  obtain ⟨kind, n⟩ := key
  have hhead (l : List CatalogRecord) : l.head?.isSome = true ↔ ∃ r, r ∈ l := by
    cases l <;> simp
  have hempty (l : List CatalogRecord) : (!l.isEmpty) = true ↔ ∃ r, r ∈ l := by
    cases l <;> simp
  cases kind with
  | table =>
    rw [satisfies, table?, hhead]
    refine ⟨fun h => ⟨.table, rfl, h⟩, fun ⟨kind, hkind, h⟩ => ?_⟩
    cases kind with
    | table => exact h
    | function | enum | composite => cases hkind
  | function =>
    rw [satisfies, functions, hempty]
    refine ⟨fun h => ⟨.function, rfl, h⟩, fun ⟨kind, hkind, h⟩ => ?_⟩
    cases kind with
    | function => exact h
    | table | enum | composite => cases hkind
  | enum | composite =>
    rw [satisfies, Bool.or_eq_true, enum?_isSome_iff, composite?_isSome_iff]
    refine ⟨fun h => h.elim (fun h => ⟨.enum, rfl, h⟩) fun h => ⟨.composite, rfl, h⟩,
      fun ⟨kind, hkind, h⟩ => ?_⟩
    cases kind with
    | enum => exact .inl h
    | composite => exact .inr h
    | table | function => cases hkind

namespace Store.Samples

section

variable {path : List String} {all : List CatalogRecord} (hw : WellFormed all) {s : Store}
  (hs : s.Samples path all)
include hw hs

theorem answered_of_satisfies (hd : Definite path all key) (h : s.satisfies key = true) :
    Answered path all s.records key := by
  obtain ⟨kind, hspace, r, hr⟩ := satisfies_iff.1 h
  rw [Store.search, hs.searchPath] at hr
  have hown : ∀ r ∈ s.records, r.name.schema.isSome := fun r hr => hw.schema r (hs.subset r hr)
  obtain ⟨hloaded, schema, hschema, hl⟩ := mem_of_mem_searchRecords hown hr
  intro r' hr'
  obtain ⟨hall, schema', hschema', hl'⟩ := mem_of_mem_searchRecords hw.schema hr'
  have hhome := hd.one_home hw hspace (hs.subset r hloaded) hall hschema hschema' hl hl'
  exact hs.mem_of_home hloaded hl hall hhome

/-- A definite key that is not missing is answered. -/
theorem answered_or_missing {requests : Requests} (hd : Definite path all key)
    (hk : key ∈ requests.keys) :
    Answered path all s.records key ∨ key ∈ (s.missing requests).keys := by
  by_cases ha : s.wasAttempted key = true
  · exact .inl (hs.attempted key (by simpa [wasAttempted] using ha))
  · by_cases hsat : s.satisfies key = true
    · exact .inl (hs.answered_of_satisfies hw hd hsat)
    · exact .inr (Requests.mem_keys_filter.2 ⟨hk, by simp [ha, hsat]⟩)

end

end Store.Samples

end SqlTyping
