import SqlTyping.Catalog.Requests

/-!
# Catalogs that can be asked for records

`selectRecords` is what a catalog answers to requests. `MemoryCatalog` answers from a list of
records, logs what it was asked, and fails where it is told to.
-/

namespace SqlTyping

/-! ## Failures -/

inductive FetchFault where
  | authentication
  | permission
  | query
  | response
  | network
  | configuration
deriving DecidableEq, Inhabited

structure FetchError where
  fault : FetchFault
  detail : String
deriving DecidableEq, Inhabited

def FetchFault.message : FetchFault → String
  | .authentication => "Authentication failed"
  | .permission => "Permission denied"
  | .query => "Query failed"
  | .response => "Invalid response"
  | .network => "Network error"
  | .configuration => "Configuration error"

def FetchError.message (e : FetchError) : String := e.fault.message ++ ": " ++ e.detail

/-! ## Selection -/

/-- The records that the requests mean, in the order of the requests and without repetitions. -/
def selectRecords (path : List String) (records : List CatalogRecord) (requests : Requests) :
    List CatalogRecord :=
  (requests.keys.flatMap (searchRecords path records)).eraseDups

/-- How records are fetched from a catalog with state `σ`. -/
abbrev Fetch (σ : Type) := Requests → σ → Except FetchError (List CatalogRecord) × σ

/-! ## A catalog in memory -/

structure MemoryCatalog where
  records : List CatalogRecord
  /-- Failures by name in lower case, the newest first. -/
  failures : List (String × FetchError) := []
  /-- The requests so far. -/
  log : List Requests := []
  searchPath : List String := defaultSearchPath
  /-- Is the catalog out of reach? -/
  unreachable : Bool := false
  name : String := "Mock"
deriving Inhabited

namespace MemoryCatalog

variable (c : MemoryCatalog)

def addRecord (r : CatalogRecord) : MemoryCatalog :=
  { c with records := c.records ++ [r] }

/-- From now on, requests for the name fail. -/
def addFailure (name : String) (error : FetchError) : MemoryCatalog :=
  { c with failures := (Text.lower name, error) :: c.failures }

def failure? (name : String) : Option FetchError :=
  c.failures.lookup (Text.lower name)

/-- Forgets records, failures and the log. -/
def clear : MemoryCatalog := { c with records := [], failures := [], log := [] }

def testConnection : Except FetchError Unit :=
  if c.unreachable then .error ⟨.network, "Simulated connection failure"⟩ else .ok ()

/-- All records in the schemas of the search path. -/
def fetchAll : Except FetchError (List CatalogRecord) := do
  c.testConnection
  return c.records.filter fun r => r.name.schema.all fun s => c.searchPath.any (Text.eqFold · s)

/-- The answer to requests: the failure of the first name that has one, or the records. -/
def answer (requests : Requests) : Except FetchError (List CatalogRecord) :=
  match requests.keys.findSome? fun key => c.failure? key.name.name with
  | some error => .error error
  | none => .ok (selectRecords c.searchPath c.records requests)

/-- Requests that reach the catalog are logged. -/
def fetch : Fetch MemoryCatalog := fun requests c =>
  match c.testConnection with
  | .error error => (.error error, c)
  | .ok () => (c.answer requests, { c with log := c.log ++ [requests] })

end MemoryCatalog

end SqlTyping
