import SqlTyping.Catalog.Name

/-!
# Records of the catalog

What a database says about its tables, views, types and functions.
-/

namespace SqlTyping

/-- A column of a table or view. -/
structure Column where
  name : String
  nullable : Bool
  /-- The type as the database spells it. -/
  pgType : String
  comment : Option String
deriving DecidableEq, Inhabited

/-- An attribute of a composite type. -/
structure Attribute where
  name : String
  pgType : String
  nullable : Bool
deriving DecidableEq, Inhabited

inductive CatalogRecord where
  | table (name : QualifiedName) (columns : List Column)
  /-- A view. Its columns are typed from its query; the catalog's own are there for when that fails.
  -/
  | view (name : QualifiedName) (source : String) (columns : List Column)
  | enum (name : QualifiedName) (variants : List String)
  | composite (name : QualifiedName) (attributes : List Attribute)
  /-- One overload of a function. -/
  | function (name : QualifiedName) (args : List String) (returns : String) (isAggregate : Bool)
deriving DecidableEq, Inhabited

/-- The kinds of records that share a space of names. -/
inductive RecordKind where
  | table
  | function
  | enum
  | composite
deriving DecidableEq, Inhabited

/-- What a record is looked up by. -/
structure RecordKey where
  kind : RecordKind
  name : QualifiedName
deriving DecidableEq, Inhabited

namespace RecordKind

def name : RecordKind → String
  | .table => "table"
  | .function => "function"
  | .enum => "enum"
  | .composite => "composite"

def ofName? (name : String) : Option RecordKind :=
  [RecordKind.table, .function, .enum, .composite].find? (·.name == name)

end RecordKind

namespace CatalogRecord

def name : CatalogRecord → QualifiedName
  | .table name _ | .view name _ _ | .enum name _ | .composite name _ | .function name _ _ _ => name

/-- A view is looked up as a table. -/
def kind : CatalogRecord → RecordKind
  | .table .. | .view .. => .table
  | .function .. => .function
  | .enum .. => .enum
  | .composite .. => .composite

def key (r : CatalogRecord) : RecordKey := ⟨r.kind, r.name⟩

end CatalogRecord

/-- The records that can be meant by a key. A name without schema stands for the records of the
first schema of the path that has any. -/
def searchRecords (path : List String) (records : List CatalogRecord) (key : RecordKey) :
    List CatalogRecord :=
  let candidates := records.filter fun r => r.kind == key.kind && key.name.admits r.name
  if key.name.schema.isSome then candidates
  else
    (path.findSome? fun schema =>
      match candidates.filter (·.name.isIn schema) with
      | [] => none
      | found => some found).getD []

/-- The schemas that a name without schema is looked up in, unless others are given. -/
def defaultSearchPath : List String := ["public", "pg_catalog"]

end SqlTyping
