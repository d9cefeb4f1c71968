import SqlTyping.Proofs.Catalog.Sample

/-!
# Loading reaches a fixed point

One round of loading keeps a store a sample of the catalog and answers what was pending
(`Samples.round`). Every round but the last adds a record, so the bound on the rounds is never what
ends loading: afterwards the store is closed, that is, it answers the definite names that its own
records refer to (`loadRounds_complete`).
-/

namespace SqlTyping

open List

variable {c : MemoryCatalog} {pending : Requests} {path : List String} {all : List CatalogRecord}
  {s : Store}

/-- A catalog that answers every request from its records. -/
structure MemoryCatalog.Serves (path : List String) (all : List CatalogRecord)
    (c : MemoryCatalog) : Prop where
  reachable : c.unreachable = false
  failures : c.failures = []
  searchPath : c.searchPath = path
  records : c.records.eraseDups = all

theorem MemoryCatalog.Serves.fetch (h : c.Serves path all) (requests : Requests) :
    MemoryCatalog.fetch requests c =
      (.ok (selectRecords path all requests), { c with log := c.log ++ [requests] }) := by
  have hnone : (requests.keys.findSome? fun key => c.failure? key.name.name) = none := by
    simp [MemoryCatalog.failure?, h.failures]
  have hanswer : c.answer requests = .ok (selectRecords path all requests) := by
    rw [MemoryCatalog.answer, hnone, ← h.records, selectRecords_eraseDups, h.searchPath]
  simp [MemoryCatalog.fetch, MemoryCatalog.testConnection, h.reachable, hanswer]

theorem MemoryCatalog.Serves.log (h : c.Serves path all) (log : List Requests) :
    ({ c with log } : MemoryCatalog).Serves path all :=
  ⟨h.reachable, h.failures, h.searchPath, h.records⟩

namespace Store

/-! ## One round -/

/-- The store after one round of loading from a catalog that answers. -/
def round (path : List String) (all : List CatalogRecord) (s : Store) (pending : Requests) :
    Store :=
  (s.markAttempted pending).extend (selectRecords path all pending)

/-- What a round adds. -/
def fresh (path : List String) (all : List CatalogRecord) (s : Store) (pending : Requests) :
    List CatalogRecord :=
  ((selectRecords path all pending).removeAll s.records).eraseDups

section

variable {path : List String} {all : List CatalogRecord} {s : Store}

theorem Indexed.records_round (h : s.Indexed) (pending : Requests) :
    (s.round path all pending).records = s.records ++ s.fresh path all pending := by
  rw [round, (h.markAttempted pending).records_extend, (h.markAttempted pending).append_new]
  rfl

theorem Indexed.added_round (h : s.Indexed) (pending : Requests) :
    ((s.markAttempted pending).addAll (selectRecords path all pending)).2 =
      s.fresh path all pending := by
  rw [added_addAll, addedSince, ← round, h.records_round, records_markAttempted, drop_left]

theorem Indexed.mem_records_round (h : s.Indexed) {r : CatalogRecord} :
    r ∈ (s.round path all pending).records ↔
      r ∈ s.records ∨ ∃ key ∈ pending.keys, r ∈ searchRecords path all key := by
  rw [round, (h.markAttempted pending).records_extend, mem_eraseDups, mem_append,
    records_markAttempted, mem_selectRecords]

theorem Samples.round (hschema : ∀ r ∈ all, r.name.schema.isSome) (hn : all.Nodup)
    (hs : s.Samples path all) (pending : Requests) :
    (s.round path all pending).Samples path all := by
  have hgrows : ∀ r ∈ s.records, r ∈ (s.round path all pending).records :=
    fun r hr => hs.indexed.mem_records_round.2 (.inl hr)
  refine ⟨(hs.indexed.markAttempted pending).extend _, ?_, ?_, ?_, ?_⟩
  · rw [Store.round, searchPath_extend, searchPath_markAttempted, hs.searchPath]
  · intro r hr
    rcases hs.indexed.mem_records_round.1 hr with hr | ⟨key, -, hr⟩
    · exact hs.subset r hr
    · exact mem_records_of_mem_searchRecords hr
  · intro kind schema name
    rw [Store.round, (hs.indexed.markAttempted pending).records_extend,
      ← Repetition.eraseDups_filter, filter_append, records_markAttempted]
    rcases hs.homes kind schema name with h | h
    · -- The home was empty: it is now as the answer has it.
      have hnodup : (selectRecords path all pending).Nodup := Repetition.nodup_eraseDups _
      rw [h, nil_append, Repetition.eraseDups_of_nodup (hnodup.filter _)]
      exact selectRecords_filter_home hschema hn pending kind schema name
    · -- The home was full: the answer repeats some of it.
      right
      rw [h, Repetition.eraseDups_append_of_subset, Repetition.eraseDups_of_nodup (hn.filter _)]
      intro r hr
      obtain ⟨hr, hl⟩ := mem_filter.1 hr
      obtain ⟨key, -, hr⟩ := mem_selectRecords.1 hr
      exact mem_filter.2 ⟨mem_records_of_mem_searchRecords hr, hl⟩
  · intro key hk
    rw [Store.round, attempted_extend, mem_attempted_markAttempted] at hk
    rcases hk with hk | hk
    · exact (hs.attempted key hk).mono hgrows
    · exact fun r hr => hs.indexed.mem_records_round.2 (.inr ⟨key, hk, hr⟩)

/-! ## Closed stores -/

/-- Whatever definite names the records of the store refer to, they are answered. -/
def Closed (path : List String) (all : List CatalogRecord) (s : Store) : Prop :=
  ∀ r ∈ s.records, ∀ key ∈ r.needs.keys, Definite path all key → Answered path all s.records key

/-- Whatever definite names the records of the store refer to, they are answered or pending. -/
def ClosedUpTo (path : List String) (all : List CatalogRecord) (s : Store) (pending : Requests) :
    Prop :=
  ∀ r ∈ s.records, ∀ key ∈ r.needs.keys, Definite path all key →
    Answered path all s.records key ∨ key ∈ pending.keys

theorem Samples.closedUpTo_round (hw : WellFormed all) (hn : all.Nodup) (hs : s.Samples path all)
    (hc : s.ClosedUpTo path all pending) :
    (s.round path all pending).ClosedUpTo path all
      ((s.round path all pending).missing (needsOf (s.fresh path all pending))) := by
  have hnext := hs.round hw.schema hn pending
  intro r hr key hk hd
  rw [hs.indexed.records_round] at hr
  rcases mem_append.1 hr with hr | hr
  · left
    rcases hc r hr key hk hd with h | h
    · exact h.mono fun r hr => hs.indexed.mem_records_round.2 (.inl hr)
    · exact fun r hr => hs.indexed.mem_records_round.2 (.inr ⟨key, h, hr⟩)
  · exact hnext.answered_or_missing hw hd (mem_keys_needsOf.2 ⟨r, hr, hk⟩)

end

end Store

/-! ## All rounds -/

/-- Loading for `pending` from `before` went well: the store is a closed sample of the catalog that
has all it had, and what was pending is answered. -/
structure Loading.Complete (path : List String) (all : List CatalogRecord) (before : Store)
    (pending : Requests) (l : Loading MemoryCatalog) : Prop where
  ok : ∃ added, l.outcome = .ok added
  serves : l.catalog.Serves path all
  samples : l.store.Samples path all
  closed : l.store.Closed path all
  grows : ∀ r ∈ before.records, r ∈ l.store.records
  answered : ∀ key ∈ pending.keys, Answered path all l.store.records key

theorem Loading.complete_of_isEmpty (hserves : c.Serves path all) (hs : s.Samples path all)
    (hc : s.ClosedUpTo path all pending) (hempty : pending.isEmpty = true) :
    (⟨s, c, .ok []⟩ : Loading MemoryCatalog).Complete path all s pending := by
  have hnone := Requests.isEmpty_iff.1 hempty
  refine ⟨⟨[], rfl⟩, hserves, hs, fun r hr key hk hd => ?_, fun r hr => hr, fun key hk => ?_⟩
  · exact (hc r hr key hk hd).resolve_right (hnone key)
  · exact absurd hk (hnone key)

theorem loadRounds_succ (hserves : c.Serves path all) (hs : s.Samples path all)
    (hpending : pending.isEmpty = false) (rounds : Nat) :
    loadRounds MemoryCatalog.fetch (rounds + 1) pending s c =
      let next := s.round path all pending
      let rest := loadRounds MemoryCatalog.fetch rounds
        (next.missing (needsOf (s.fresh path all pending))) next
        { c with log := c.log ++ [pending] }
      { rest with outcome := rest.outcome.map (s.fresh path all pending ++ ·) } := by
  rw [loadRounds, if_neg (by simp [hpending]), hserves.fetch pending]
  rw [← hs.indexed.added_round pending]
  rfl

section

variable {path : List String} {all : List CatalogRecord} (hw : WellFormed all) (hn : all.Nodup)
include hw hn

theorem loadRounds_complete {rounds : Nat} (hserves : c.Serves path all) (hs : s.Samples path all)
    (hc : s.ClosedUpTo path all pending)
    (hrounds : pending.isEmpty = true ∨ all.length < rounds + s.records.length) :
    (loadRounds MemoryCatalog.fetch rounds pending s c).Complete path all s pending := by
  -- The rounds that are left outnumber the records that the store still lacks.
  induction rounds generalizing pending s c with
  | zero =>
    have hlen : s.records.length ≤ all.length :=
      hs.indexed.nodup.length_le_of_subset fun r hr => hs.subset r hr
    have hempty : pending.isEmpty = true := hrounds.resolve_right (by omega)
    exact Loading.complete_of_isEmpty hserves hs hc hempty
  | succ rounds ih =>
    by_cases hempty : pending.isEmpty = true
    · rw [loadRounds, if_pos hempty]
      exact Loading.complete_of_isEmpty hserves hs hc hempty
    · rw [loadRounds_succ hserves hs (by simpa using hempty)]
      have hnext := hs.round hw.schema hn pending
      have hrounds' : ((s.round path all pending).missing
          (needsOf (s.fresh path all pending))).isEmpty = true ∨
          all.length < rounds + (s.round path all pending).records.length := by
        rw [hs.indexed.records_round, length_append]
        cases hfresh : s.fresh path all pending with
        | nil =>
          -- A round that adds nothing leaves nothing to ask for.
          left
          refine Requests.isEmpty_iff.2 fun key hk => ?_
          obtain ⟨r, hr, -⟩ := mem_keys_needsOf.1 (Requests.mem_keys_filter.1 hk).1
          cases hr
        | cons r fresh =>
          have := hrounds.resolve_left hempty
          right
          simp only [length_cons]
          omega
      have hrest := ih (hserves.log (c.log ++ [pending])) hnext (hs.closedUpTo_round hw hn hc)
        hrounds'
      obtain ⟨added, hok⟩ := hrest.ok
      refine ⟨⟨s.fresh path all pending ++ added, ?_⟩, hrest.serves, hrest.samples, hrest.closed,
        fun r hr => ?_, fun key hk => ?_⟩
      · simp only [hok]; rfl
      · exact hrest.grows r (hs.indexed.mem_records_round.2 (.inl hr))
      · exact fun r hr => hrest.grows r (hs.indexed.mem_records_round.2 (.inr ⟨key, hk, hr⟩))

/-- After loading, every definite name that was asked for is answered, whatever the store was asked
for before. -/
theorem loadRequests_complete (requests : Requests) (hserves : c.Serves path all)
    (hs : s.Samples path all) (hc : s.Closed path all) :
    (loadRequests requests s c).Complete path all s (s.missing requests) ∧
      ∀ key ∈ requests.keys, Definite path all key →
        Answered path all (loadRequests requests s c).store.records key := by
  have hlen : all.length ≤ c.records.length := by
    rw [← hserves.records]
    exact (Repetition.nodup_eraseDups _).length_le_of_subset fun r hr => mem_eraseDups.1 hr
  have hdone : (loadRequests requests s c).Complete path all s (s.missing requests) :=
    loadRounds_complete hw hn hserves hs (fun r hr key hk hd => .inl (hc r hr key hk hd))
      (.inr (by omega))
  refine ⟨hdone, fun key hk hd => ?_⟩
  rcases hs.answered_or_missing hw hd hk with h | h
  · exact h.mono hdone.grows
  · exact hdone.answered key h

end

end SqlTyping
