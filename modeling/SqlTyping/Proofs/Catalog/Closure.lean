import SqlTyping.Proofs.Catalog.Rounds

/-!
# What a store that was loaded knows

A store that holds the selection of a catalog for some requests answers each of them as a store with
the whole catalog does (`search_selectRecords`).

A store knows a key that was asked for or that it can satisfy. Loading asks for what the added
records refer to and the store does not know, so it keeps a store closed: it knows all that its own
records refer to, also after a failure (`Reached.stays_closed`).
-/

namespace SqlTyping

open List

/-! ## Selection and search -/

/-- For a key that was selected for, the selection is searched like the whole catalog: the schema
that has the name and the order of overloads are the same, whatever else was selected. -/
theorem search_selectRecords {path : List String} {all : List CatalogRecord} (hn : all.Nodup)
    (hschema : ∀ r ∈ all, r.name.schema.isSome) {requests : Requests} {key : RecordKey}
    (hk : key ∈ requests.keys) :
    ((Store.empty path).extend (selectRecords path all requests)).search key.kind key.name =
      ((Store.empty path).extend all).search key.kind key.name := by
  have hempty := Store.indexed_empty path
  have hsamples := (Store.Samples.empty path all).round hschema hn requests
  -- What was asked for plays no part in the records, so one round leaves the selection.
  have hselected : ((Store.empty path).extend (selectRecords path all requests)).records =
      ((Store.empty path).round path all requests).records := by
    rw [Store.round, (hempty.markAttempted requests).records_extend, hempty.records_extend]
    rfl
  have hall : ((Store.empty path).extend all).records = all := by
    rw [hempty.records_extend]
    exact Repetition.eraseDups_of_nodup hn
  have hanswered : Answered path all ((Store.empty path).round path all requests).records key :=
    fun r hr => hempty.mem_records_round.2 (.inr ⟨key, hk, hr⟩)
  rw [Store.search, Store.search, Store.searchPath_extend, Store.searchPath_extend, hselected, hall]
  exact hsamples.search_eq hschema hanswered

/-- Two overloads of a function, in the order of the catalog, and a namesake in a schema that comes
later on the path and is asked for too. -/
theorem search_selectRecords_overloads :
    let f (schema : String) (arg : String) : CatalogRecord :=
      .function ⟨some schema, "f"⟩ [arg] "int" false
    let path := ["a", "b"]
    let all := [f "b" "int", f "a" "text", f "A" "date"]
    let requests : Requests := { functions := [⟨some "b", "f"⟩, ⟨none, "F"⟩] }
    selectRecords path all requests = all ∧
      ((Store.empty path).extend all).search .function ⟨none, "F"⟩ =
        [f "a" "text", f "A" "date"] ∧
      ((Store.empty path).extend (selectRecords path all requests)).search .function ⟨none, "F"⟩ =
        ((Store.empty path).extend all).search .function ⟨none, "F"⟩ := by
  intro f path all requests
  exact ⟨by decide +kernel, by decide +kernel, @search_selectRecords path all (by decide +kernel)
    (by decide) requests ⟨.function, none, "F"⟩ (by decide)⟩

/-! ## Stores that know what their records need -/

namespace Store

variable {s t : Store} {requests pending : Requests}

/-- Every key was asked for or can be satisfied. -/
def Knows (s : Store) (requests : Requests) : Prop :=
  ∀ key ∈ requests.keys, s.wasAttempted key = true ∨ s.satisfies key = true

/-- What the records of the store refer to is known. -/
def Settled (s : Store) : Prop := ∀ r ∈ s.records, s.Knows r.needs

/-- What the records of the store refer to is known or pending. -/
def SettledUpTo (s : Store) (pending : Requests) : Prop :=
  ∀ r ∈ s.records, (s.missing r.needs).keys ⊆ pending.keys

theorem wasAttempted_iff {key : RecordKey} : s.wasAttempted key = true ↔ key ∈ s.attempted :=
  contains_iff_mem

theorem Grows.knows (h : s.Grows t) (hs : s.Knows requests) : t.Knows requests := fun key hk =>
  (hs key hk).imp (fun ha => wasAttempted_iff.2 (h.attempted (wasAttempted_iff.1 ha))) h.satisfies

theorem knows_of_missing_subset (h : (s.missing requests).keys ⊆ pending.keys)
    (hpending : ∀ key ∈ pending.keys, s.wasAttempted key = true) : s.Knows requests := by
  intro key hk
  by_contra hnot
  obtain ⟨hasked, hsat⟩ := not_or.1 hnot
  have hmissing : key ∈ (s.missing requests).keys :=
    mem_keys_missing.2 ⟨hk, fun ha => hasked (wasAttempted_iff.2 ha), by simpa using hsat⟩
  exact hasked (hpending key (h hmissing))

theorem missing_subset_of_grows (h : s.Grows t) :
    (t.missing requests).keys ⊆ (s.missing requests).keys := fun key hk => by
  obtain ⟨hk, hasked, hsat⟩ := mem_keys_missing.1 hk
  refine mem_keys_missing.2 ⟨hk, fun ha => hasked (h.attempted ha), ?_⟩
  by_contra hs
  rw [h.satisfies (by simpa using hs)] at hsat
  cases hsat

/-- Asking for what is missing is enough, whatever the answer. -/
theorem knows_markAttempted (h : (s.missing requests).keys ⊆ pending.keys) :
    (s.markAttempted pending).Knows requests :=
  knows_of_missing_subset (List.Subset.trans (missing_subset_of_grows (.markAttempted s pending)) h)
    fun _ hk => wasAttempted_iff.2 (mem_attempted_markAttempted.2 (.inr hk))

theorem Knows.missing_keys (h : s.Knows requests) : (s.missing requests).keys = [] :=
  eq_nil_iff_forall_not_mem.2 fun key hk => by
    obtain ⟨hk, hasked, hsat⟩ := mem_keys_missing.1 hk
    rcases h key hk with ha | hs
    · exact hasked (wasAttempted_iff.1 ha)
    · rw [hs] at hsat; cases hsat

/-- After a round, what the new records need and is missing is all there is to ask for. -/
theorem SettledUpTo.round (h : s.SettledUpTo pending) (records : List CatalogRecord) :
    let grown := (s.markAttempted pending).extend records
    grown.SettledUpTo (grown.missing (needsOf ((s.markAttempted pending).addAll records).2)) := by
  intro grown r hr
  rw [records_addAll] at hr
  rcases mem_append.1 hr with hr | hr
  · have hknows : grown.Knows r.needs := (Grows.extend _ records).knows (knows_markAttempted (h r hr))
    rw [hknows.missing_keys]
    exact nil_subset _
  · intro key hk
    obtain ⟨hneeds, hnew⟩ := mem_keys_missing.1 hk
    exact mem_keys_missing.2 ⟨mem_keys_needsOf.2 ⟨r, hr, hneeds⟩, hnew⟩

end Store

/-! ## Calls -/

section

variable {σ : Type} {fetch : Fetch σ} {pending requests : Requests} {s : Store} {c : σ}
  {asked : List Requests} {l : Loading σ}

theorem Loads.grows (h : Loads fetch pending s c asked l) : s.Grows l.store := by
  induction h with
  | done => exact .refl _
  | failed => exact .markAttempted _ _
  | @round pending s _ _ _ records _ _ _ _ _ hgrown _ ih =>
    obtain ⟨rfl, rfl⟩ := Prod.mk.inj hgrown
    exact (Store.Grows.round s pending records).trans ih

theorem Loads.knows (h : Loads fetch pending s c asked l)
    (hs : (s.missing requests).keys ⊆ pending.keys) : l.store.Knows requests := by
  cases h with
  | done hempty =>
    exact Store.knows_of_missing_subset hs fun key hk =>
      absurd hk (Requests.isEmpty_iff.1 hempty key)
  | failed => exact Store.knows_markAttempted hs
  | round _ _ hgrown hrest =>
    obtain ⟨rfl, rfl⟩ := Prod.mk.inj hgrown
    exact hrest.grows.knows ((Store.Grows.extend _ _).knows (Store.knows_markAttempted hs))

theorem Loads.settled (h : Loads fetch pending s c asked l) (hs : s.SettledUpTo pending) :
    l.store.Settled := by
  induction h with
  | done hempty =>
    intro r hr
    exact Store.knows_of_missing_subset (hs r hr) fun key hk =>
      absurd hk (Requests.isEmpty_iff.1 hempty key)
  | failed => exact fun r hr => Store.knows_markAttempted (hs r hr)
  | round _ _ hgrown _ ih =>
    obtain ⟨rfl, rfl⟩ := Prod.mk.inj hgrown
    exact ih (hs.round _)

end

/-- The stores that calls lead to, from an empty one. Each call has a catalog of its own, which
answers as it likes or fails in any round. -/
inductive Reached (path : List String) : Store → Prop
  | empty : Reached path (.empty path)
  | call {σ : Type} {fetch : Fetch σ} {c : σ} {requests : Requests} {s : Store}
      {asked : List Requests} {l : Loading σ} :
      Reached path s → Loads fetch (s.missing requests) s c asked l → Reached path l.store

theorem Reached.settled {path : List String} {s : Store} (h : Reached path s) : s.Settled := by
  induction h with
  | empty => exact fun r hr => nomatch hr
  | call _ hloads ih =>
    refine hloads.settled fun r hr => ?_
    rw [(ih r hr).missing_keys]
    exact nil_subset _

/-- Loading keeps the store closed. After any calls, with failures in any round, the store knows all
that its records refer to, and one more call leaves it so and knowing what was requested; so does
`loadRequests`. -/
theorem Reached.stays_closed {path : List String} {s : Store} (hs : Reached path s)
    (requests : Requests) :
    s.Settled ∧
    (∀ (σ : Type) (fetch : Fetch σ) (c : σ) (asked : List Requests) (l : Loading σ),
      Loads fetch (s.missing requests) s c asked l → l.store.Settled ∧ l.store.Knows requests) ∧
    ∀ c : MemoryCatalog, Reached path (loadRequests requests s c).store ∧
      (loadRequests requests s c).store.Knows requests := by
  refine ⟨hs.settled, fun σ fetch c asked l hloads => ?_, fun c => ?_⟩
  · exact ⟨(hs.call hloads).settled, hloads.knows (List.Subset.refl _)⟩
  · obtain ⟨asked, hloads, -⟩ := loads_loadRequests s requests c
    exact ⟨hs.call hloads, hloads.knows (List.Subset.refl _)⟩

/-- A call fails in its second round: the view is there, and its table counts as asked for. -/
theorem Reached.stays_closed_people :
    let s := Store.empty defaultSearchPath
    let requests : Requests := { tables := [⟨none, "people"⟩] }
    let l := loadRequests requests s troubledCatalog
    (l.outcome = .error ⟨.network, "connection reset"⟩ ∧ l.store.records.length = 1) ∧
      l.store.Settled ∧ l.store.Knows requests := by
  intro s requests l
  obtain ⟨-, -, hcall⟩ := Reached.stays_closed (@Reached.empty defaultSearchPath) requests
  obtain ⟨hreached, hknows⟩ := hcall troubledCatalog
  exact ⟨by decide +kernel, (Reached.stays_closed hreached requests).1, hknows⟩

end SqlTyping
