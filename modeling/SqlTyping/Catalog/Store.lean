import SqlTyping.Catalog.Requests

/-!
# The store of loaded records

Records of the catalog that have been loaded, in the order of loading and without repetitions, with
an index of their positions by key, and the keys that have been asked for, so that nothing is asked
for twice.
-/

namespace SqlTyping

/-- Positions of records by key. -/
abbrev KeyIndex := List (RecordKey × List Nat)

namespace KeyIndex

def positions (index : KeyIndex) (key : RecordKey) : List Nat := (index.lookup key).getD []

/-- The index with one more position for a key. -/
def add (key : RecordKey) (position : Nat) : KeyIndex → KeyIndex
  | [] => [(key, [position])]
  | (k, positions) :: rest =>
    if k == key then (k, positions ++ [position]) :: rest
    else (k, positions) :: add key position rest

end KeyIndex

structure Store where
  records : List CatalogRecord
  index : KeyIndex
  searchPath : List String
  attempted : List RecordKey
deriving Inhabited

namespace Store

variable (s : Store)

def empty (searchPath : List String) : Store :=
  { records := [], index := [], searchPath, attempted := [] }

/-- Is the record there? Only records with its key need a look. -/
def contains (r : CatalogRecord) : Bool :=
  (s.index.positions r.key).any fun i => s.records[i]? == some r

/-- Adds a record at the end. -/
def push (r : CatalogRecord) : Store :=
  { s with records := s.records ++ [r], index := s.index.add r.key s.records.length }

/-- A record is added to the store and to the list of new ones, unless it is there. -/
def addNew : Store × List CatalogRecord → CatalogRecord → Store × List CatalogRecord
  | (s, added), r => if s.contains r then (s, added) else (s.push r, added ++ [r])

/-- Adds records, skipping those that are there. Those that were new are returned. -/
def addAll (records : List CatalogRecord) : Store × List CatalogRecord :=
  records.foldl addNew (s, [])

def extend (records : List CatalogRecord) : Store := (s.addAll records).1

/-- The records that have been added since the store was `before`. -/
def addedSince (s before : Store) : List CatalogRecord := s.records.drop before.records.length

def ofRecords (records : List CatalogRecord) : Store := (empty defaultSearchPath).extend records

/-- Notes that the requests have been made, whatever the answer. -/
def markAttempted (requests : Requests) : Store :=
  { s with attempted := requests.keys.foldl (fun seen key => seen.insert key) s.attempted }

def wasAttempted (key : RecordKey) : Bool := s.attempted.contains key

def search (kind : RecordKind) (name : QualifiedName) : List CatalogRecord :=
  searchRecords s.searchPath s.records ⟨kind, name⟩

/-- A table or view. -/
def table? (name : QualifiedName) : Option CatalogRecord := (s.search .table name).head?

/-- All overloads of a function. -/
def functions (name : QualifiedName) : List CatalogRecord := s.search .function name

def enum? (name : QualifiedName) : Option (QualifiedName × List String) :=
  (s.search .enum name).findSome? fun
    | .enum name variants => some (name, variants)
    | _ => none

def composite? (name : QualifiedName) : Option (QualifiedName × List Attribute) :=
  (s.search .composite name).findSome? fun
    | .composite name attributes => some (name, attributes)
    | _ => none

/-- Does the store have what a key asks for? A type may be of either kind. -/
def satisfies (key : RecordKey) : Bool :=
  match key.kind with
  | .table => (s.table? key.name).isSome
  | .function => !(s.functions key.name).isEmpty
  | .enum | .composite => (s.enum? key.name).isSome || (s.composite? key.name).isSome

/-- The requests that have neither been made nor are satisfied. -/
def missing (requests : Requests) : Requests :=
  requests.filter fun key => !s.wasAttempted key && !s.satisfies key

end Store

end SqlTyping
