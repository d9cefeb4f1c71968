import Mathlib.Data.Finset.Card
import Mathlib.Data.Finset.Dedup
import SqlTyping.Proofs.Catalog.Retry

/-!
# Rounds of loading

What a round asks for counts as asked for from then on, and only what was not asked for is pending.
So no key is asked for twice, in however many calls and whatever the catalogs answer
(`askedBy_pairwise`).

`Loads` is loading with no bound on its rounds. If the catalog has finitely many records, every
round after the first one asks for a key that some record refers to and that was not asked for, so
loading ends, also where records refer to each other in circles (`Loads.exists_of_drawsFrom`). The
bound that `loadRequests` sets is never what ends it (`Loads.length_le_lacks`).
-/

namespace SqlTyping

open List

variable {r : CatalogRecord} {s t : Store} {all records : List CatalogRecord}

/-! ## What calls ask for -/

/-- The catalog, with a log of what it is asked. -/
def Fetch.logged {σ : Type} (fetch : Fetch σ) : Fetch (σ × List Requests) :=
  fun requests (c, log) => ((fetch requests c).1, (fetch requests c).2, log ++ [requests])

/-- A call: what is to be loaded from which catalog, and when the call is cut off. -/
structure LoadCall where
  {State : Type}
  fetch : Fetch State
  catalog : State
  rounds : Nat
  requests : Requests

def LoadCall.run (call : LoadCall) (s : Store) : Loading (call.State × List Requests) :=
  loadRounds call.fetch.logged call.rounds (s.missing call.requests) s (call.catalog, [])

/-- What calls ask their catalogs for, round by round. -/
def askedBy (s : Store) : List LoadCall → List Requests
  | [] => []
  | call :: calls => (call.run s).catalog.2 ++ askedBy (call.run s).store calls

theorem Requests.exists_mem_keys {r : Requests} (h : r.isEmpty = false) : ∃ key, key ∈ r.keys := by
  by_contra hnone
  rw [Requests.isEmpty_iff.2 fun key hkey => hnone ⟨key, hkey⟩] at h
  cases h

/-- The requests have no key in common. -/
def Requests.Apart (a b : Requests) : Prop := a.keys.Disjoint b.keys

/-- The requests are new to the store `before`, and the store `after` knows them. -/
def Requests.Between (before after : Store) (r : Requests) : Prop :=
  ∀ key ∈ r.keys, key ∉ before.attempted ∧ key ∈ after.attempted

theorem Requests.Between.mono {s' t' : Store} {r : Requests} (h : r.Between s' t) (hs : s.Grows s')
    (ht : t.Grows t') : r.Between s t' := fun key hkey =>
  ⟨fun hm => (h key hkey).1 (hs.attempted hm), ht.attempted (h key hkey).2⟩

theorem Requests.Between.apart {u : Store} {a b : Requests} (ha : a.Between s t)
    (hb : b.Between t u) : a.Apart b :=
  fun key hkey hkey' => (hb key hkey').1 (ha key hkey).2

section

variable {σ : Type} {fetch : Fetch σ}

/-- What is asked for in a run is asked for once, and is new to the store. -/
theorem loadRounds_logged_asks (fetch : Fetch σ) (rounds : Nat) (pending : Requests) (s : Store)
    (c : σ) (log : List Requests) (hpending : ∀ key ∈ pending.keys, key ∉ s.attempted) :
    ∃ asked, (loadRounds fetch.logged rounds pending s (c, log)).catalog.2 = log ++ asked ∧
      asked.Pairwise Requests.Apart ∧
      ∀ r ∈ asked, r.Between s (loadRounds fetch.logged rounds pending s (c, log)).store := by
  induction rounds generalizing pending s c log with
  | zero => exact ⟨[], by simp [loadRounds]⟩
  | succ rounds ih =>
    cases hempty : pending.isEmpty with
    | true =>
      rw [loadRounds_of_isEmpty _ hempty]
      exact ⟨[], by simp⟩
    | false =>
      have hasked : ∀ key ∈ pending.keys, key ∈ (s.markAttempted pending).attempted :=
        fun key hkey => Store.mem_attempted_markAttempted.2 (.inr hkey)
      cases hfetch : fetch pending c with
      | mk outcome c' =>
        cases outcome with
        | error e =>
          have hlogged : fetch.logged pending (c, log) = (.error e, c', log ++ [pending]) := by
            simp only [Fetch.logged, hfetch]
          rw [loadRounds_error rounds hempty s hlogged]
          refine ⟨[pending], rfl, pairwise_singleton _ _, fun r hr => ?_⟩
          obtain rfl := mem_singleton.1 hr
          exact fun key hkey => ⟨hpending key hkey, hasked key hkey⟩
        | ok records =>
          have hlogged : fetch.logged pending (c, log) = (.ok records, c', log ++ [pending]) := by
            simp only [Fetch.logged, hfetch]
          obtain ⟨grown, added, hadds⟩ : ∃ grown added,
            (s.markAttempted pending).addAll records = (grown, added) := ⟨_, _, rfl⟩
          have hgrown : (s.markAttempted pending).extend records = grown := congrArg Prod.fst hadds
          rw [loadRounds_ok rounds hempty hlogged hadds]
          dsimp only
          have hfirst : pending.Between s grown := fun key hkey =>
            ⟨hpending key hkey, hgrown ▸ (Store.Grows.extend _ _).attempted (hasked key hkey)⟩
          obtain ⟨asked, hlog, hpairs, hnew⟩ :=
            ih (grown.missing (needsOf added)) grown c' (log ++ [pending])
              fun key hkey => (Store.mem_keys_missing.1 hkey).2.1
          refine ⟨pending :: asked, by rw [hlog, append_assoc]; rfl,
            pairwise_cons.2 ⟨fun r hr => hfirst.apart (hnew r hr), hpairs⟩,
            forall_mem_cons.2 ⟨?_, fun r hr => ?_⟩⟩
          · exact hfirst.mono (.refl s) (loadRounds_grows ..)
          · exact (hnew r hr).mono (hgrown ▸ .round s pending records) (.refl _)

theorem not_attempted_of_askedBy (s : Store) (calls : List LoadCall) :
    ∀ r ∈ askedBy s calls, ∀ key ∈ r.keys, key ∉ s.attempted := by
  induction calls generalizing s with
  | nil => simp [askedBy]
  | cons call calls ih =>
    obtain ⟨asked, hlog, -, hnew⟩ := loadRounds_logged_asks call.fetch call.rounds
      (s.missing call.requests) s call.catalog [] fun key hkey => (Store.mem_keys_missing.1 hkey).2.1
    have hgrows : s.Grows (call.run s).store := loadRounds_grows ..
    intro r hr key hkey hm
    rcases mem_append.1 hr with hr | hr
    · rw [LoadCall.run, hlog, nil_append] at hr
      exact (hnew r hr key hkey).1 hm
    · exact ih _ r hr key hkey (hgrows.attempted hm)

/-- In any sequence of calls, the keys of different rounds are different. -/
theorem askedBy_pairwise (s : Store) (calls : List LoadCall) :
    (askedBy s calls).Pairwise Requests.Apart := by
  induction calls generalizing s with
  | nil => exact List.Pairwise.nil
  | cons call calls ih =>
    obtain ⟨asked, hlog, hpairs, hnew⟩ := loadRounds_logged_asks call.fetch call.rounds
      (s.missing call.requests) s call.catalog [] fun key hkey => (Store.mem_keys_missing.1 hkey).2.1
    rw [nil_append] at hlog
    refine pairwise_append.2 ⟨by rw [LoadCall.run, hlog]; exact hpairs, ih _, ?_⟩
    intro a ha b hb key hkey hkey'
    rw [LoadCall.run, hlog] at ha
    exact not_attempted_of_askedBy _ calls b hb key hkey' (hnew a ha key hkey).2

/-! ## Loading without a bound -/

/-- Loading goes on until nothing is pending or the catalog fails. The rounds asked for `asked`. -/
inductive Loads (fetch : Fetch σ) : Requests → Store → σ → List Requests → Loading σ → Prop
  | done {pending : Requests} {s : Store} {c : σ} :
      pending.isEmpty = true → Loads fetch pending s c [] ⟨s, c, .ok []⟩
  | failed {pending : Requests} {s : Store} {c c' : σ} {e : FetchError} :
      pending.isEmpty = false → fetch pending c = (.error e, c') →
      Loads fetch pending s c [pending] ⟨s.markAttempted pending, c', .error e⟩
  | round {pending : Requests} {s grown : Store} {c c' : σ} {records added : List CatalogRecord}
      {asked : List Requests} {rest : Loading σ} :
      pending.isEmpty = false → fetch pending c = (.ok records, c') →
      (s.markAttempted pending).addAll records = (grown, added) →
      Loads fetch (grown.missing (needsOf added)) grown c' asked rest →
      Loads fetch pending s c (pending :: asked)
        { rest with outcome := rest.outcome.map (added ++ ·) }

variable {pending : Requests} {s : Store} {c : σ} {asked : List Requests} {l : Loading σ}

/-- A bound that is no smaller than the number of rounds changes nothing, and the log has what each
round asked for. -/
theorem Loads.loadRounds_eq (h : Loads fetch pending s c asked l) {rounds : Nat}
    (hrounds : asked.length ≤ rounds) :
    loadRounds fetch rounds pending s c = l ∧ ∀ log,
      loadRounds fetch.logged rounds pending s (c, log) =
        ⟨l.store, (l.catalog, log ++ asked), l.outcome⟩ := by
  induction h generalizing rounds with
  | @done pending s c hpending =>
    exact ⟨loadRounds_of_isEmpty rounds hpending s c, fun log => by
      rw [loadRounds_of_isEmpty rounds hpending, append_nil]⟩
  | @failed pending s c c' e hpending hfetch =>
    obtain ⟨rounds, rfl⟩ : ∃ n, rounds = n + 1 := ⟨rounds - 1, by simp at hrounds; omega⟩
    refine ⟨loadRounds_error rounds hpending s hfetch, fun log => ?_⟩
    have hlogged : fetch.logged pending (c, log) = (.error e, c', log ++ [pending]) := by
      simp only [Fetch.logged, hfetch]
    exact loadRounds_error rounds hpending s hlogged
  | @round pending s grown c c' records added asked rest hpending hfetch hgrown _ ih =>
    rw [length_cons] at hrounds
    obtain ⟨rounds, rfl⟩ : ∃ n, rounds = n + 1 := ⟨rounds - 1, by omega⟩
    obtain ⟨hrest, hlog⟩ := ih (Nat.le_of_succ_le_succ hrounds)
    refine ⟨?_, fun log => ?_⟩
    · rw [loadRounds_ok rounds hpending hfetch hgrown, hrest]
    · have hlogged : fetch.logged pending (c, log) = (.ok records, c', log ++ [pending]) := by
        simp only [Fetch.logged, hfetch]
      rw [loadRounds_ok rounds hpending hlogged hgrown, hlog, append_assoc]
      rfl

/-! ## Catalogs with finitely many records -/

/-- Whatever the catalog answers, it answers with some of the records. It may also fail. -/
structure DrawsFrom (fetch : Fetch σ) (all : List CatalogRecord) (state : σ → Prop) : Prop where
  answers : ∀ {c}, state c → ∀ {requests records}, (fetch requests c).1 = .ok records →
    records ⊆ all
  stays : ∀ {c}, state c → ∀ requests, state (fetch requests c).2

/-- The keys that records refer to. -/
def dependencyKeys (all : List CatalogRecord) : Finset RecordKey :=
  (all.flatMap fun r => r.needs.keys).toFinset

theorem mem_dependencyKeys {key : RecordKey} :
    key ∈ dependencyKeys all ↔ ∃ r ∈ all, key ∈ r.needs.keys := by
  simp [dependencyKeys]

end

/-! ## What an answer adds -/

namespace Store

theorem contains_iff_exists :
    s.contains r = true ↔ ∃ i ∈ s.index.positions r.key, s.records[i]? = some r := by
  simp [contains]

theorem contains_push_of_contains (hr : s.contains r = true) (x : CatalogRecord) :
    (s.push x).contains r = true := by
  obtain ⟨i, hi, hget⟩ := contains_iff_exists.1 hr
  refine contains_iff_exists.2 ⟨i, ?_, ?_⟩
  · rw [push, KeyIndex.positions_add]
    split
    · exact mem_append_left _ hi
    · exact hi
  · rw [push, getElem?_append_left (List.getElem?_eq_some_iff.1 hget).1]
    exact hget

theorem contains_push_self (s : Store) (r : CatalogRecord) : (s.push r).contains r = true :=
  contains_iff_exists.2 ⟨s.records.length, by simp [push, KeyIndex.positions_add], by simp [push]⟩

/-- What is there stays, and what is added was not there and is now. -/
theorem contains_addAll (s : Store) (records : List CatalogRecord) :
    (∀ x, s.contains x = true → (s.extend records).contains x = true) ∧
      ∀ x ∈ (s.addAll records).2, s.contains x = false ∧ (s.extend records).contains x = true := by
  refine addAll_induction (motive := fun t => (∀ x, s.contains x = true → t.1.contains x = true) ∧
    ∀ x ∈ t.2, s.contains x = false ∧ t.1.contains x = true) ⟨fun _ => id, nofun⟩ ?_
  rintro t added r - ⟨hkept, hnew⟩ hr
  refine ⟨fun x hx => contains_push_of_contains (hkept x hx) r, ?_⟩
  rw [forall_mem_append, forall_mem_singleton]
  refine ⟨fun x hx => ⟨(hnew x hx).1, contains_push_of_contains (hnew x hx).2 r⟩, ?_,
    contains_push_self t r⟩
  cases hs : s.contains r with
  | false => rfl
  | true => rw [hkept r hs] at hr; cases hr

theorem contains_markAttempted (s : Store) (requests : Requests) (r : CatalogRecord) :
    (s.markAttempted requests).contains r = s.contains r := rfl

/-- The records that the store does not have. -/
def lacks (s : Store) (all : List CatalogRecord) : List CatalogRecord :=
  all.filter fun r => !s.contains r

/-- A round that adds something leaves fewer records to add. -/
theorem length_lacks_lt {pending : Requests} {grown : Store} {added : List CatalogRecord}
    (hsub : records ⊆ all) (hgrown : (s.markAttempted pending).addAll records = (grown, added))
    (hadded : added ≠ []) : (grown.lacks all).length < (s.lacks all).length := by
  obtain ⟨hkept, hnew⟩ := contains_addAll (s.markAttempted pending) records
  have hsome := added_subset (s.markAttempted pending) records
  rw [extend, hgrown] at hkept hnew
  rw [hgrown] at hsome
  obtain ⟨r, hr⟩ := exists_mem_of_ne_nil _ hadded
  obtain ⟨hlacks, hhas⟩ := hnew r hr
  have hfewer : List.Sublist (grown.lacks all) (s.lacks all) := by
    refine monotone_filter_right all fun x hx => ?_
    cases hs : s.contains x with
    | false => rfl
    | true =>
      rw [hkept x ((contains_markAttempted s pending x).trans hs)] at hx
      cases hx
  refine Nat.lt_of_le_of_ne hfewer.length_le fun heq => ?_
  have hmem : r ∈ s.lacks all := by
    rw [contains_markAttempted] at hlacks
    exact mem_filter.2 ⟨hsub (hsome hr), by simp [hlacks]⟩
  rw [← hfewer.eq_of_length heq] at hmem
  simp [lacks, hhas] at hmem

end Store

section

variable {σ : Type} {fetch : Fetch σ} {all : List CatalogRecord} {state : σ → Prop}
  {pending : Requests} {s : Store} {c : σ}

theorem isEmpty_missing_needsOf_nil (s : Store) : (s.missing (needsOf [])).isEmpty = true :=
  Requests.isEmpty_iff.2 fun key hkey => by
    obtain ⟨r, hr, -⟩ := mem_keys_needsOf.1 (Store.mem_keys_missing.1 hkey).1
    cases hr

/-- Every round but the last adds a record. -/
theorem Loads.length_le_lacks {asked : List Requests} {l : Loading σ}
    (h : Loads fetch pending s c asked l) (hfetch : DrawsFrom fetch all state) (hc : state c) :
    asked.length ≤ (s.lacks all).length + 1 := by
  induction h with
  | done => simp
  | failed => simp
  | @round pending s grown c c' records added asked rest hpending hanswer hgrown hrest ih =>
    have hc' : state c' := by simpa [hanswer] using hfetch.stays hc pending
    have hsub : records ⊆ all := hfetch.answers hc (by rw [hanswer])
    have hlength := ih hc'
    by_cases hnone : added = []
    · rw [hnone] at hrest
      cases hrest with
      | done => simp
      | failed hsome => rw [isEmpty_missing_needsOf_nil] at hsome; cases hsome
      | round hsome => rw [isEmpty_missing_needsOf_nil] at hsome; cases hsome
    · have hfewer := Store.length_lacks_lt hsub hgrown hnone
      rw [length_cons]
      omega

/-- The keys that the records refer to and that have not been asked for. -/
def Store.unasked (s : Store) (all : List CatalogRecord) : Finset RecordKey :=
  {key ∈ dependencyKeys all | key ∉ s.attempted}

theorem Store.card_unasked_lt (hgrows : s.Grows t)
    (hasked : ∀ key ∈ pending.keys, key ∈ t.attempted)
    (hnew : ∃ key ∈ pending.keys, key ∈ s.unasked all) :
    (t.unasked all).card < (s.unasked all).card := by
  refine Finset.card_lt_card (Finset.ssubset_iff_subset_ne.2 ⟨fun key hkey => ?_, fun heq => ?_⟩)
  · obtain ⟨hdep, hkey⟩ := Finset.mem_filter.1 hkey
    exact Finset.mem_filter.2 ⟨hdep, fun hm => hkey (hgrows.attempted hm)⟩
  · obtain ⟨key, hkey, hun⟩ := hnew
    rw [← heq] at hun
    exact (Finset.mem_filter.1 hun).2 (hasked key hkey)

/-- What follows a round are keys that its records refer to. -/
theorem mem_unasked_of_missing (hsub : records ⊆ all) :
    let grown := (s.markAttempted pending).extend records
    ∀ key ∈ (grown.missing (needsOf ((s.markAttempted pending).addAll records).2)).keys,
      key ∈ grown.unasked all := by
  intro grown key hkey
  obtain ⟨hneeds, hnew, -⟩ := Store.mem_keys_missing.1 hkey
  obtain ⟨r, hr, hkey⟩ := mem_keys_needsOf.1 hneeds
  exact Finset.mem_filter.2
    ⟨mem_dependencyKeys.2 ⟨r, hsub (Store.added_subset _ _ hr), hkey⟩, hnew⟩

/-- Loading ends if all that is pending are keys that the records refer to. -/
theorem Loads.exists_of_unasked (hfetch : DrawsFrom fetch all state) (hc : state c)
    (hpending : ∀ key ∈ pending.keys, key ∈ s.unasked all) :
    ∃ asked l, Loads fetch pending s c asked l ∧ asked.length ≤ (s.unasked all).card := by
  -- Each round asks for at least one of finitely many keys that are left to ask for.
  induction hn : (s.unasked all).card using Nat.strong_induction_on generalizing s pending c with
  | _ n ih =>
    cases hempty : pending.isEmpty with
    | true => exact ⟨[], _, .done hempty, by simp⟩
    | false =>
      obtain ⟨key, hkey⟩ := Requests.exists_mem_keys hempty
      have hpos : 0 < n := hn ▸ Finset.card_pos.2 ⟨key, hpending key hkey⟩
      cases hanswer : fetch pending c with
      | mk outcome c' =>
        cases outcome with
        | error e => exact ⟨[pending], _, .failed hempty hanswer, hpos⟩
        | ok records =>
          have hc' : state c' := by simpa [hanswer] using hfetch.stays hc pending
          have hsub : records ⊆ all := hfetch.answers hc (by rw [hanswer])
          have hfewer : (((s.markAttempted pending).extend records).unasked all).card < n := by
            rw [← hn]
            refine Store.card_unasked_lt (.round s pending records) (fun k hk => ?_)
              ⟨key, hkey, hpending key hkey⟩
            exact (Store.Grows.extend _ _).attempted (Store.mem_attempted_markAttempted.2 (.inr hk))
          obtain ⟨asked, l, hloads, hlength⟩ := ih _ hfewer hc' (mem_unasked_of_missing hsub) rfl
          refine ⟨pending :: asked, _, .round hempty hanswer rfl hloads, ?_⟩
          rw [length_cons]
          omega

/-- Loading ends after at most one round more than there are keys that the records refer to. -/
theorem Loads.exists_of_drawsFrom (hfetch : DrawsFrom fetch all state) (hc : state c)
    (pending : Requests) (s : Store) :
    ∃ asked l, Loads fetch pending s c asked l ∧ asked.length ≤ 1 + (dependencyKeys all).card := by
  cases hempty : pending.isEmpty with
  | true => exact ⟨[], _, .done hempty, by simp⟩
  | false =>
    cases hanswer : fetch pending c with
    | mk outcome c' =>
      cases outcome with
      | error e => exact ⟨[pending], _, .failed hempty hanswer, by simp⟩
      | ok records =>
        have hc' : state c' := by simpa [hanswer] using hfetch.stays hc pending
        have hsub : records ⊆ all := hfetch.answers hc (by rw [hanswer])
        obtain ⟨asked, l, hloads, hlength⟩ :=
          Loads.exists_of_unasked hfetch hc' (mem_unasked_of_missing hsub)
        have hcard := Finset.card_filter_le (dependencyKeys all)
          fun key => key ∉ ((s.markAttempted pending).extend records).attempted
        refine ⟨pending :: asked, _, .round hempty hanswer rfl hloads, ?_⟩
        have : asked.length ≤ (dependencyKeys all).card := hlength.trans hcard
        rw [length_cons]
        omega

end

/-! ## A catalog in memory -/

theorem MemoryCatalog.drawsFrom_fetch (all : List CatalogRecord) :
    DrawsFrom MemoryCatalog.fetch all fun c => c.records = all where
  answers {c} hc {requests records} h := by
    have hrecords := (MemoryCatalog.faithful_fetch c.searchPath c.records.eraseDups).answers
      ⟨rfl, rfl⟩ h
    intro r hr
    rw [hrecords] at hr
    obtain ⟨key, -, hr⟩ := mem_selectRecords.1 hr
    rw [← hc]
    exact mem_eraseDups.1 (mem_records_of_mem_searchRecords hr)
  stays {c} hc requests := by
    unfold MemoryCatalog.fetch
    cases c.testConnection with
    | error e => exact hc
    | ok => exact hc

/-- The bound that `loadRequests` sets does not cut loading off. -/
theorem loads_loadRequests (s : Store) (requests : Requests) (c : MemoryCatalog) :
    ∃ asked, Loads MemoryCatalog.fetch (s.missing requests) s c asked (loadRequests requests s c) ∧
      asked.length ≤ 1 + (dependencyKeys c.records).card := by
  have hfetch := MemoryCatalog.drawsFrom_fetch c.records
  obtain ⟨asked, l, hloads, hlength⟩ :=
    Loads.exists_of_drawsFrom hfetch (c := c) rfl (s.missing requests) s
  have hrounds : asked.length ≤ c.records.length + 1 :=
    (hloads.length_le_lacks hfetch rfl).trans (Nat.succ_le_succ (length_filter_le _ _))
  have heq : loadRequests requests s c = l := (hloads.loadRounds_eq hrounds).1
  exact ⟨asked, heq ▸ hloads, hlength⟩

/-- Loading never repeats a request, and it ends. However many calls are made, of whatever catalogs
with whatever answers and failures, no key is asked for in two rounds. Loading from a catalog that
answers from a list of records ends by itself after at most one round more than there are different
keys that the records refer to, and any bound on the rounds that is no smaller leaves it as it is.
The bound of `loadRequests` is such a one. -/
theorem load_asks_once_and_ends : (∀ (s : Store) (calls : List LoadCall),
      (askedBy s calls).Pairwise fun a b => a.keys.Disjoint b.keys) ∧
    (∀ (σ : Type) (fetch : Fetch σ) (all : List CatalogRecord) (state : σ → Prop),
      DrawsFrom fetch all state → ∀ (s : Store) (requests : Requests) (c : σ), state c →
        ∃ asked l, Loads fetch (s.missing requests) s c asked l ∧
          asked.length ≤ 1 + (dependencyKeys all).card ∧
          ∀ rounds, asked.length ≤ rounds → loadRounds fetch rounds (s.missing requests) s c = l ∧
            loadRounds fetch.logged rounds (s.missing requests) s (c, []) =
              ⟨l.store, (l.catalog, asked), l.outcome⟩) ∧
    ∀ (s : Store) (requests : Requests) (c : MemoryCatalog),
      ∃ asked, Loads MemoryCatalog.fetch (s.missing requests) s c asked
          (loadRequests requests s c) ∧
        asked.length ≤ 1 + (dependencyKeys c.records).card := by
  refine ⟨askedBy_pairwise, fun σ fetch all state hfetch s requests c hc => ?_, loads_loadRequests⟩
  obtain ⟨asked, l, hloads, hlength⟩ := Loads.exists_of_drawsFrom hfetch hc (s.missing requests) s
  refine ⟨asked, l, hloads, hlength, fun rounds hrounds => ?_⟩
  obtain ⟨hplain, hlogged⟩ := hloads.loadRounds_eq hrounds
  exact ⟨hplain, hlogged []⟩

/-- Two views that read each other, and two composite types that hold each other. -/
def circularRecords : List CatalogRecord := [
  .view ⟨some "public", "a"⟩ "SELECT x FROM b" [⟨"x", true, "p", none⟩],
  .view ⟨some "public", "b"⟩ "SELECT x FROM a" [⟨"x", true, "q", none⟩],
  .composite ⟨some "public", "p"⟩ [⟨"q", "q", true⟩],
  .composite ⟨some "public", "q"⟩ [⟨"p", "p", true⟩]]

def circularCatalog : MemoryCatalog := { records := circularRecords }

/-- Loading a view that reads itself through another one takes three rounds, of the seven that six
keys allow, and loading it again takes none. -/
theorem load_asks_once_and_ends_circular :
    let s : Store := .empty defaultSearchPath
    let requests : Requests := { tables := [⟨none, "a"⟩] }
    let call : LoadCall := ⟨MemoryCatalog.fetch, circularCatalog, 5, requests⟩
    (askedBy s [call, call]).map (·.keys.length) = [1, 3, 2] ∧
      (askedBy s [call, call]).Pairwise (fun a b => a.keys.Disjoint b.keys) ∧
      (dependencyKeys circularRecords).card = 6 ∧
      ∃ asked l, Loads MemoryCatalog.fetch (s.missing requests) s circularCatalog asked l ∧
        asked.length ≤ 7 := by
  intro s requests call
  have hcard : (dependencyKeys circularRecords).card = 6 := by decide +kernel
  obtain ⟨honce, hends, -⟩ := load_asks_once_and_ends
  obtain ⟨asked, l, hloads, hlength, -⟩ := hends MemoryCatalog MemoryCatalog.fetch circularRecords
    _ (MemoryCatalog.drawsFrom_fetch _) s requests circularCatalog rfl
  rw [hcard] at hlength
  exact ⟨by decide +kernel, honce s [call, call], hcard, asked, l, hloads, hlength⟩

end SqlTyping
