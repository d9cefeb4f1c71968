import SqlTyping.Proofs.Catalog.Loading

/-!
# Loading after a failure

A store only grows, and what is asked for counts as asked for, also if the catalog fails. So loading
that failed is not repeated: the same requests leave nothing to ask, whatever catalog there is then
(`Fails.isEmpty_missing`). The rounds before the failure are kept. Compared with loading that does
not fail, the records of the failing round and of later ones are missing, and lookups differ only
where such a record is an answer (`loadRounds_retry`).
-/

namespace SqlTyping

open List

/-! ## Stores that grow -/

/-- The second store has what the first has, and was asked for what the first was asked for. -/
structure Store.Grows (s t : Store) : Prop where
  searchPath : t.searchPath = s.searchPath
  records : s.records <+: t.records
  attempted : s.attempted ⊆ t.attempted

namespace Store.Grows

variable {s t u : Store}

theorem refl (s : Store) : s.Grows s := ⟨rfl, prefix_refl _, List.Subset.refl _⟩

theorem trans (h : s.Grows t) (h' : t.Grows u) : s.Grows u :=
  ⟨h'.searchPath.trans h.searchPath, h.records.trans h'.records,
    List.Subset.trans h.attempted h'.attempted⟩

theorem markAttempted (s : Store) (requests : Requests) : s.Grows (s.markAttempted requests) :=
  ⟨rfl, prefix_refl _, fun _ hk => mem_attempted_markAttempted.2 (.inl hk)⟩

theorem extend (s : Store) (records : List CatalogRecord) : s.Grows (s.extend records) :=
  ⟨searchPath_extend s records, ⟨_, (records_addAll s records).symm⟩, by simp⟩

/-- A round that is answered. -/
theorem round (s : Store) (requests : Requests) (records : List CatalogRecord) :
    s.Grows ((s.markAttempted requests).extend records) :=
  (markAttempted s requests).trans (extend _ records)

/-- What can be satisfied can be satisfied later. -/
theorem satisfies (h : s.Grows t) {key : RecordKey} (hs : s.satisfies key = true) :
    t.satisfies key = true := by
  obtain ⟨kind, hspace, r, hr⟩ := satisfies_iff.1 hs
  obtain ⟨more, hmore⟩ := h.records
  have hne : t.search kind key.name ≠ [] := by
    rw [Store.search, h.searchPath, ← hmore]
    exact searchRecords_append_ne_nil (ne_nil_of_mem hr) more
  exact satisfies_iff.2 ⟨kind, hspace, exists_mem_of_ne_nil _ hne⟩

end Store.Grows

/-! ## Rounds -/

theorem Store.mem_keys_missing {s : Store} {requests : Requests} {key : RecordKey} :
    key ∈ (s.missing requests).keys ↔
      key ∈ requests.keys ∧ key ∉ s.attempted ∧ s.satisfies key = false := by
  simp [Store.missing, Store.wasAttempted]

section

variable {σ : Type} {fetch : Fetch σ} {pending : Requests}

theorem loadRounds_of_isEmpty (rounds : Nat) (hpending : pending.isEmpty = true) (s : Store)
    (c : σ) : loadRounds fetch rounds pending s c = ⟨s, c, .ok []⟩ := by
  cases rounds with
  | zero => rfl
  | succ rounds => rw [loadRounds, if_pos hpending]

theorem loadRounds_error (rounds : Nat) (hpending : pending.isEmpty = false) (s : Store) {c c' : σ}
    {e : FetchError} (h : fetch pending c = (.error e, c')) :
    loadRounds fetch (rounds + 1) pending s c = ⟨s.markAttempted pending, c', .error e⟩ := by
  rw [loadRounds, if_neg (by simp [hpending]), h]

/-- A round that is answered: loading goes on with the store that has the answer. -/
theorem loadRounds_ok (rounds : Nat) (hpending : pending.isEmpty = false) {s grown : Store}
    {c c' : σ} {records added : List CatalogRecord} (h : fetch pending c = (.ok records, c'))
    (hgrown : (s.markAttempted pending).addAll records = (grown, added)) :
    let rest := loadRounds fetch rounds (grown.missing (needsOf added)) grown c'
    loadRounds fetch (rounds + 1) pending s c =
      { rest with outcome := rest.outcome.map (added ++ ·) } := by
  dsimp only
  rw [loadRounds, if_neg (by simp [hpending]), h]
  dsimp only
  rw [hgrown]

theorem loadRounds_grows (rounds : Nat) (pending : Requests) (s : Store) (c : σ) :
    s.Grows (loadRounds fetch rounds pending s c).store := by
  induction rounds generalizing pending s c with
  | zero => exact .refl s
  | succ rounds ih =>
    cases hpending : pending.isEmpty with
    | true => rw [loadRounds_of_isEmpty _ hpending]; exact .refl s
    | false =>
      cases hfetch : fetch pending c with
      | mk outcome c' =>
        cases outcome with
        | error e => rw [loadRounds_error rounds hpending s hfetch]; exact .markAttempted s pending
        | ok records =>
          rw [loadRounds_ok rounds hpending hfetch rfl]
          exact (Store.Grows.round s pending records).trans (ih _ _ c')

/-! ## Failures -/

variable {rounds : Nat} {s : Store} {c : σ} {e : FetchError} {last : Requests} {failed : Store}

/-- Loading fails, at once or after a round that is answered. The failing round asks for `last`, and
leaves the store `failed`. -/
inductive Fails (fetch : Fetch σ) : Nat → Requests → Store → σ → (last : Requests) →
    (failed : Store) → Prop
  | now {rounds : Nat} {pending : Requests} {s : Store} {c c' : σ} {e : FetchError} :
      pending.isEmpty = false → fetch pending c = (.error e, c') →
      Fails fetch (rounds + 1) pending s c pending (s.markAttempted pending)
  | later {rounds : Nat} {pending last : Requests} {s grown failed : Store} {c c' : σ}
      {records added : List CatalogRecord} :
      pending.isEmpty = false → fetch pending c = (.ok records, c') →
      (s.markAttempted pending).addAll records = (grown, added) →
      Fails fetch rounds (grown.missing (needsOf added)) grown c' last failed →
      Fails fetch (rounds + 1) pending s c last failed

theorem fails_of_outcome (h : (loadRounds fetch rounds pending s c).outcome = .error e) :
    ∃ last, Fails fetch rounds pending s c last (loadRounds fetch rounds pending s c).store := by
  induction rounds generalizing pending s c e with
  | zero => cases h
  | succ rounds ih =>
    cases hpending : pending.isEmpty with
    | true => rw [loadRounds_of_isEmpty _ hpending] at h; cases h
    | false =>
      cases hfetch : fetch pending c with
      | mk outcome c' =>
        cases outcome with
        | error e =>
          rw [loadRounds_error rounds hpending s hfetch]
          exact ⟨pending, .now hpending hfetch⟩
        | ok records =>
          rw [loadRounds_ok rounds hpending hfetch rfl] at h ⊢
          dsimp only at h ⊢
          generalize hrest : loadRounds fetch rounds _ _ c' = rest at h ⊢
          cases ho : rest.outcome with
          | ok added => rw [ho] at h; cases h
          | error e' =>
            rw [← hrest] at ho ⊢
            obtain ⟨last, hlast⟩ := ih ho
            exact ⟨last, .later hpending hfetch rfl hlast⟩

namespace Fails

theorem grows (h : Fails fetch rounds pending s c last failed) : s.Grows failed := by
  induction h with
  | @now _ pending s _ _ _ _ _ => exact .markAttempted s pending
  | @later _ pending _ s _ _ _ _ records _ _ _ hgrown _ ih =>
    obtain ⟨rfl, rfl⟩ := Prod.mk.inj hgrown
    exact (Store.Grows.round s pending records).trans ih

/-- What loading asks for counts as asked for, also if it fails. -/
theorem mem_attempted (h : Fails fetch rounds pending s c last failed) :
    ∀ key ∈ pending.keys, key ∈ failed.attempted := by
  intro key hkey
  have hasked : key ∈ (s.markAttempted pending).attempted :=
    Store.mem_attempted_markAttempted.2 (.inr hkey)
  cases h with
  | now => exact hasked
  | later _ _ hgrown hrest =>
    obtain ⟨rfl, rfl⟩ := Prod.mk.inj hgrown
    exact ((Store.Grows.extend _ _).trans hrest.grows).attempted hasked

/-- After a failure, and whatever is loaded then, the same requests leave nothing to ask. -/
theorem isEmpty_missing {requests : Requests}
    (h : Fails fetch rounds (s.missing requests) s c last failed) {later : Store}
    (hlater : failed.Grows later) : (later.missing requests).isEmpty = true := by
  have hgrows := h.grows.trans hlater
  refine Requests.isEmpty_iff.2 fun key hkey => ?_
  obtain ⟨hkey, hattempted, hsatisfied⟩ := Store.mem_keys_missing.1 hkey
  -- There was need to ask for it before, so it has been asked for in the first round.
  have hbefore : key ∈ (s.missing requests).keys := by
    refine Store.mem_keys_missing.2 ⟨hkey, fun hm => hattempted (hgrows.attempted hm), ?_⟩
    cases hs : s.satisfies key with
    | false => rfl
    | true => rw [hgrows.satisfies hs] at hsatisfied; cases hsatisfied
  exact hattempted (hlater.attempted (h.mem_attempted key hbefore))

/-- The failing round asks for something. All of it counts as asked for, and the store that is left
cannot satisfy any of it. -/
theorem unsatisfied (h : Fails fetch rounds pending s c last failed)
    (hp : ∀ key ∈ pending.keys, s.satisfies key = false) :
    last.isEmpty = false ∧
      ∀ key ∈ last.keys, failed.wasAttempted key = true ∧ failed.satisfies key = false := by
  induction h with
  | @now _ pending s _ _ _ hpending _ =>
    refine ⟨hpending, fun key hkey => ⟨?_, hp key hkey⟩⟩
    have hasked : key ∈ (s.markAttempted pending).attempted :=
      Store.mem_attempted_markAttempted.2 (.inr hkey)
    simpa [Store.wasAttempted] using hasked
  | later _ _ _ _ ih => exact ih fun key hkey => (Store.mem_keys_missing.1 hkey).2.2

end Fails

end

/-! ## Catalogs -/

/-- Where the catalog does not fail, it answers requests with the records `answer` has for them. Its
state stays among those that `state` admits. -/
structure Faithful {σ : Type} (fetch : Fetch σ) (answer : Requests → List CatalogRecord)
    (state : σ → Prop) : Prop where
  answers : ∀ {c}, state c → ∀ {requests records}, (fetch requests c).1 = .ok records →
    records = answer requests
  stays : ∀ {c}, state c → ∀ requests, state (fetch requests c).2

/-- The catalog does not fail. -/
structure Reliable {σ : Type} (fetch : Fetch σ) (answer : Requests → List CatalogRecord)
    (state : σ → Prop) : Prop extends Faithful fetch answer state where
  ok : ∀ {c}, state c → ∀ requests, ∃ records, (fetch requests c).1 = .ok records

theorem Reliable.fetch_eq {σ : Type} {fetch : Fetch σ} {answer : Requests → List CatalogRecord}
    {state : σ → Prop} (h : Reliable fetch answer state) {c : σ} (hc : state c)
    (requests : Requests) :
    ∃ c', fetch requests c = (.ok (answer requests), c') ∧ state c' := by
  obtain ⟨records, hok⟩ := h.ok hc requests
  exact ⟨_, Prod.ext (hok.trans (by rw [h.answers hc hok])) rfl, h.stays hc requests⟩

section

variable {σ τ : Type} {fetch : Fetch σ} {again : Fetch τ} {answer : Requests → List CatalogRecord}
  {state : σ → Prop} {state' : τ → Prop}

/-- Loading that does not fail has all that was loaded until the failure, and goes on from there. -/
theorem Fails.grows_loadRounds {rounds : Nat} {pending last : Requests} {s failed : Store} {c : σ}
    (h : Fails fetch rounds pending s c last failed) (hfetch : Faithful fetch answer state)
    (hc : state c) (hagain : Reliable again answer state') {enough : Nat} (henough : rounds ≤ enough)
    {d : τ} (hd : state' d) :
    failed.records <+: (loadRounds again enough pending s d).store.records := by
  induction h generalizing enough d with
  | @now _ pending s _ _ _ _ _ => exact (loadRounds_grows enough pending s d).records
  | @later rounds pending last s grown failed c c' records added hpending hanswer hgrown _ ih =>
    obtain ⟨enough, rfl⟩ : ∃ n, enough = n + 1 := ⟨enough - 1, by omega⟩
    obtain ⟨d', hd', hstate⟩ := hagain.fetch_eq hd pending
    have hrecords : records = answer pending := hfetch.answers hc (by rw [hanswer])
    have hc' : state c' := by
      have hstays := hfetch.stays hc pending
      rwa [hanswer] at hstays
    rw [loadRounds_ok enough hpending hd' (hrecords ▸ hgrown)]
    exact ih hc' (by omega) hstate

/-- Loading that failed is not made up for. Loading the same requests again, from a store that has
grown since or not, asks nothing, and the names of the failing round, of which there are some and
which the store cannot satisfy, stay asked for. The store then lacks the records that loading would
have added from the failing round on if the catalog had not failed, and no others: a lookup that none
of them answers has the same result as if loading had not failed. -/
theorem loadRounds_retry (hfetch : Faithful fetch answer state)
    (hagain : Reliable again answer state') {rounds : Nat} {requests : Requests} {s : Store} {c : σ}
    (hc : state c) {e : FetchError}
    (hfail : (loadRounds fetch rounds (s.missing requests) s c).outcome = .error e) {enough : Nat}
    (henough : rounds ≤ enough) {d : τ} (hd : state' d) :
    let failed := (loadRounds fetch rounds (s.missing requests) s c).store
    let untroubled := (loadRounds again enough (s.missing requests) s d).store
    (∀ later, failed.Grows later →
      loadRounds again enough (later.missing requests) later d = ⟨later, d, .ok []⟩) ∧
      (∃ last, Fails fetch rounds (s.missing requests) s c last failed ∧ last.isEmpty = false ∧
        ∀ key ∈ last.keys, failed.wasAttempted key = true ∧ failed.satisfies key = false) ∧
      ∃ lost, untroubled.records = failed.records ++ lost ∧
        ∀ kind n, (∀ r ∈ lost, searchRecords s.searchPath [r] ⟨kind, n⟩ = []) →
          failed.search kind n = untroubled.search kind n := by
  intro failed untroubled
  obtain ⟨last, hfails⟩ : ∃ last, Fails fetch rounds (s.missing requests) s c last failed :=
    fails_of_outcome hfail
  obtain ⟨lost, hlost⟩ := hfails.grows_loadRounds hfetch hc hagain henough hd
  refine ⟨fun later hlater => loadRounds_of_isEmpty _ (hfails.isEmpty_missing hlater) _ _,
    ⟨last, hfails, hfails.unsatisfied fun key hkey => (Store.mem_keys_missing.1 hkey).2.2⟩,
    lost, hlost.symm, fun kind n hnone => ?_⟩
  have hpath : untroubled.searchPath = s.searchPath := (loadRounds_grows ..).searchPath
  rw [Store.search, Store.search, hpath, hfails.grows.searchPath, ← hlost]
  exact (searchRecords_append failed.records hnone).symm

end

/-! ## A catalog in memory -/

/-- The catalog has the records, though it may fail. -/
structure MemoryCatalog.Holds (path : List String) (all : List CatalogRecord) (c : MemoryCatalog) :
    Prop where
  searchPath : c.searchPath = path
  records : c.records.eraseDups = all

theorem MemoryCatalog.faithful_fetch (path : List String) (all : List CatalogRecord) :
    Faithful MemoryCatalog.fetch (selectRecords path all) (MemoryCatalog.Holds path all) where
  answers {c} hc {requests records} h := by
    unfold MemoryCatalog.fetch at h
    cases hconnection : c.testConnection with
    | error e => rw [hconnection] at h; cases h
    | ok =>
      rw [hconnection] at h
      dsimp only at h
      unfold MemoryCatalog.answer at h
      split at h
      · cases h
      · cases h
        rw [hc.searchPath, ← selectRecords_eraseDups, hc.records]
  stays {c} hc requests := by
    unfold MemoryCatalog.fetch
    cases c.testConnection with
    | error e => exact hc
    | ok => exact ⟨hc.searchPath, hc.records⟩

theorem MemoryCatalog.reliable_fetch (path : List String) (all : List CatalogRecord) :
    Reliable MemoryCatalog.fetch (selectRecords path all) (MemoryCatalog.Serves path all) where
  answers {c} hc {requests records} h := by
    rw [hc.fetch, Except.ok.injEq] at h
    exact h.symm
  stays {c} hc requests := by
    rw [hc.fetch]
    exact hc.log _
  ok {c} hc requests := ⟨_, by rw [hc.fetch]⟩

/-- A table, and a view of it. -/
def userRecords : List CatalogRecord := [
  .table ⟨some "public", "users"⟩ [⟨"id", false, "int4", none⟩],
  .view ⟨some "public", "people"⟩ "SELECT id FROM users" []]

def userCatalog : MemoryCatalog := { records := userRecords }

/-- The catalog when requests for the table fail. -/
def troubledCatalog : MemoryCatalog :=
  userCatalog.addFailure "users" ⟨.network, "connection reset"⟩

/-- Loading the table again does not find it, though loading it for the first time would. -/
theorem retry_lacks_users :
    let requests : Requests := { tables := [⟨none, "users"⟩] }
    let failed := loadRequests requests (.empty defaultSearchPath) troubledCatalog
    failed.outcome = .error ⟨.network, "connection reset"⟩ ∧
      (loadRequests requests failed.store userCatalog).outcome = .ok [] ∧
      (loadRequests requests failed.store userCatalog).store.table? ⟨none, "users"⟩ = none ∧
      ((loadRequests requests (.empty defaultSearchPath) userCatalog).store.table?
        ⟨none, "users"⟩).isSome = true := by
  decide +kernel

/-- The view is loaded in a first round, and its table could not be loaded in a second one. -/
theorem loadRounds_retry_people :
    let requests : Requests := { tables := [⟨none, "people"⟩] }
    let start : Store := .empty defaultSearchPath
    let failed := loadRounds MemoryCatalog.fetch 3 (start.missing requests) start troubledCatalog
    let untroubled := loadRounds MemoryCatalog.fetch 3 (start.missing requests) start userCatalog
    failed.outcome = .error ⟨.network, "connection reset"⟩ ∧
      loadRounds MemoryCatalog.fetch 3 (failed.store.missing requests) failed.store userCatalog =
        ⟨failed.store, userCatalog, .ok []⟩ ∧
      (∃ last, Fails MemoryCatalog.fetch 3 (start.missing requests) start troubledCatalog last
          failed.store ∧ last.isEmpty = false ∧ ∀ key ∈ last.keys,
            failed.store.wasAttempted key = true ∧ failed.store.satisfies key = false) ∧
      ∃ lost, untroubled.store.records = failed.store.records ++ lost ∧
        ∀ kind n, (∀ r ∈ lost, searchRecords defaultSearchPath [r] ⟨kind, n⟩ = []) →
          failed.store.search kind n = untroubled.store.search kind n := by
  intro requests start failed untroubled
  have hfail : failed.outcome = .error ⟨.network, "connection reset"⟩ := by decide +kernel
  obtain ⟨hagain, hkey, hlost⟩ := loadRounds_retry
    (MemoryCatalog.faithful_fetch defaultSearchPath userRecords)
    (MemoryCatalog.reliable_fetch defaultSearchPath userRecords) ⟨rfl, by decide⟩ hfail
    (Nat.le_refl 3) (d := userCatalog) ⟨rfl, rfl, rfl, by decide⟩
  exact ⟨hfail, hagain _ (.refl _), hkey, hlost⟩

end SqlTyping
