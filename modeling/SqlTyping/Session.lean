import SqlTyping.Catalog.Load
import SqlTyping.Report
import SqlTyping.Resolution.Basic

/-!
# Sessions

A session types statements against one catalog. It keeps what it has loaded, so that no statement
loads again what an earlier one has loaded. Many statements can be typed as a batch, which loads
once for all of them; a statement that fails does not keep the others from being typed.
-/

namespace SqlTyping

/-- What can go wrong between the text of a statement and its typed interface. -/
inductive SessionError where
  | fetch (error : FetchError)
  | load (error : LoadError)
  | parse (error : SyntaxError)

namespace SessionError

def message : SessionError → String
  | .fetch e => "Catalog error: " ++ e.message
  | .load e => e.fullMessage
  | .parse e => "Parse error: " ++ e.fullMessage

def toDiagnostic (text : String) : SessionError → Diagnostic
  | .fetch e => { code := .catalogError, severity := .error, message := e.message }
  | .load e => e.toDiagnostic text
  | .parse e => e.toDiagnostic text

end SessionError

/-- The interface of a statement as far as it is known without the catalog. -/
def extractInterface (text : String) : Except SessionError Interface :=
  match parse text with
  | .ok statement => .ok (statement.interface [])
  | .error e => .error (.parse e)

/-! ## Batches -/

structure BatchQuery where
  name : String
  text : String
deriving DecidableEq, Inhabited

/-- The typed interfaces in the order of the batch, none where a statement failed, and a report. -/
structure BatchOutcome where
  interfaces : List (Option TypedInterface)
  report : Report

namespace BatchOutcome

def empty : BatchOutcome := ⟨[], .empty⟩

/-- Adds the outcome of a statement. -/
def add (b : BatchOutcome) (query : BatchQuery) :
    Except SessionError TypedInterface → BatchOutcome
  | .ok typed => ⟨b.interfaces ++ [some typed], b.report.addQuery query.name []⟩
  | .error e => ⟨b.interfaces ++ [none], b.report.addQuery query.name [e.toDiagnostic query.text]⟩

def resolvedCount (b : BatchOutcome) : Nat := b.interfaces.countP Option.isSome

end BatchOutcome

/-- Types extracted interfaces one after the other. Views are typed once for all. -/
def resolveEach (store : Store) (mode : ResolveMode) :
    ViewColumns → List (Except SessionError Interface) → List (Except SessionError TypedInterface)
  | _, [] => []
  | views, .error e :: rest => .error e :: resolveEach store mode views rest
  | views, .ok q :: rest =>
    let (outcome, views) := q.resolveWith store mode views
    outcome.mapError .load :: resolveEach store mode views rest

def resolveBatch (store : Store) (mode : ResolveMode) (queries : List BatchQuery) : BatchOutcome :=
  let outcomes := resolveEach store mode [] (queries.map fun query => extractInterface query.text)
  (queries.zip outcomes).foldl (fun b (query, outcome) => b.add query outcome) .empty

/-! ## Sessions -/

structure Session where
  catalog : MemoryCatalog
  store : Store
  mode : ResolveMode
deriving Inhabited

namespace Session

/-- A session that has loaded nothing. -/
def new (catalog : MemoryCatalog) (searchPath : List String) (mode : ResolveMode) : Session :=
  { catalog, store := .empty searchPath, mode }

/-- Loads what the requests need. -/
def load (s : Session) (requests : Requests) :
    Except SessionError (List CatalogRecord) × Session :=
  let loading := loadRequests requests s.store s.catalog
  (loading.outcome.mapError .fetch, { s with store := loading.store, catalog := loading.catalog })

/-- Types an interface. -/
def inferInterface (s : Session) (q : Interface) : Except SessionError TypedInterface × Session :=
  match s.load q.needs with
  | (.error e, s) => (.error e, s)
  | (.ok _, s) => ((q.resolve s.store s.mode).mapError .load, s)

/-- Types a statement. -/
def infer (s : Session) (text : String) : Except SessionError TypedInterface × Session :=
  match extractInterface text with
  | .error e => (.error e, s)
  | .ok q => s.inferInterface q

/-- What a batch refers to. Texts that are no statements are left out. -/
def batchNeeds (queries : List BatchQuery) : Requests :=
  queries.foldl (fun r query =>
    match extractInterface query.text with
    | .ok q => r ++ q.needs
    | .error _ => r) {}

/-- Types many statements. Only a failure of the catalog is a failure of the batch. -/
def inferBatch (s : Session) (queries : List BatchQuery) :
    Except SessionError BatchOutcome × Session :=
  match s.load (batchNeeds queries) with
  | (.error e, s) => (.error e, s)
  | (.ok _, s) => (.ok (resolveBatch s.store s.mode queries), s)

end Session

end SqlTyping
