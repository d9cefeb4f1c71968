import SqlTyping.Catalog.Memory
import SqlTyping.Catalog.Needs
import SqlTyping.Catalog.Store

/-!
# Loading

Only names that are neither in the store nor have been asked for are sent to the catalog. Records
can refer to further names (a column of an enum type, the tables of a view), so loading goes on in
rounds until a round leaves nothing to ask.
-/

namespace SqlTyping

/-- How loading went: the store and the catalog afterwards, and the added records or the failure. -/
structure Loading (σ : Type) where
  store : Store
  catalog : σ
  outcome : Except FetchError (List CatalogRecord)

/-- What the records refer to. -/
def needsOf (records : List CatalogRecord) : Requests :=
  records.foldl (fun r record => r ++ record.needs) {}

/-- Asks for `pending`, then for what the added records need, for at most `rounds` rounds. A failure
ends loading; what has been added stays. -/
def loadRounds (fetch : Fetch σ) (rounds : Nat) (pending : Requests) (store : Store) (catalog : σ) :
    Loading σ :=
  match rounds with
  | 0 => ⟨store, catalog, .ok []⟩
  | rounds + 1 =>
    if pending.isEmpty then ⟨store, catalog, .ok []⟩
    else
      let asked := store.markAttempted pending
      match fetch pending catalog with
      | (.error error, catalog) => ⟨asked, catalog, .error error⟩
      | (.ok records, catalog) =>
        let (grown, added) := asked.addAll records
        let rest := loadRounds fetch rounds (grown.missing (needsOf added)) grown catalog
        { rest with outcome := rest.outcome.map (added ++ ·) }

/-- Loads what the requests need from a catalog in memory. Every round but the last adds a record,
so the number of records bounds the rounds. -/
def loadRequests (requests : Requests) (store : Store) (catalog : MemoryCatalog) :
    Loading MemoryCatalog :=
  loadRounds MemoryCatalog.fetch (catalog.records.length + 1) (store.missing requests) store catalog

end SqlTyping
