import SqlTyping.Catalog.Memory

/-!
# Rows of the system catalogs

A database describes a table by one row for each column, an enum by one for each label, and so on.
Rows of one object that follow each other are one record. The rows are read one after the other: the
columns of a relation are gathered until a row of another one comes, and a label or an attribute is
added to the last record.
-/

namespace SqlTyping

/-- A column of a table or view. -/
structure RelationRow where
  schema : String
  name : String
  /-- `v` for a view and `m` for a materialized view. -/
  kind : String
  column : String
  notNull : Bool
  pgType : String
  comment : Option String
  definition : Option String
deriving DecidableEq, Inhabited

/-- A label of an enum. -/
structure EnumRow where
  schema : String
  name : String
  label : String
deriving DecidableEq, Inhabited

/-- An attribute of a composite type. -/
structure AttributeRow where
  schema : String
  name : String
  member : String
  pgType : String
  notNull : Bool
deriving DecidableEq, Inhabited

/-- An overload of a function. -/
structure FunctionRow where
  schema : String
  name : String
  args : List String
  returns : String
  isAggregate : Bool
deriving DecidableEq, Inhabited

namespace RelationRow

def qualifiedName (r : RelationRow) : QualifiedName := ⟨some r.schema, r.name⟩

def toColumn (r : RelationRow) : Column := ⟨r.column, !r.notNull, r.pgType, r.comment⟩

/-- A table or view with the columns. Its first row says which it is. -/
def toRecord (head : RelationRow) (columns : List Column) : CatalogRecord :=
  match head.definition with
  | some definition =>
    if ["v", "m"].contains head.kind then
      .view head.qualifiedName (Text.trim definition) columns
    else .table head.qualifiedName columns
  | none => .table head.qualifiedName columns

/-- The records of the rows that have been read, and the relation of the last of them with its first
row and the columns so far. -/
structure Gathering where
  loaded : List CatalogRecord
  current : Option (RelationRow × List Column)

def Gathering.add : Gathering → RelationRow → Gathering
  | ⟨loaded, none⟩, row => ⟨loaded, some (row, [row.toColumn])⟩
  | ⟨loaded, some (head, columns)⟩, row =>
    if head.schema == row.schema && head.name == row.name then
      ⟨loaded, some (head, columns ++ [row.toColumn])⟩
    else ⟨loaded ++ [head.toRecord columns], some (row, [row.toColumn])⟩

def Gathering.records : Gathering → List CatalogRecord
  | ⟨loaded, none⟩ => loaded
  | ⟨loaded, some (head, columns)⟩ => loaded ++ [head.toRecord columns]

def toRecords (rows : List RelationRow) : List CatalogRecord :=
  (rows.foldl Gathering.add ⟨[], none⟩).records

end RelationRow

/-- The records with the last one extended, or with a new one where it cannot be extended. -/
def extendLast (extend? : CatalogRecord → Option CatalogRecord) (new : CatalogRecord)
    (loaded : List CatalogRecord) : List CatalogRecord :=
  match loaded.getLast?.bind extend? with
  | some extended => loaded.dropLast ++ [extended]
  | none => loaded ++ [new]

namespace EnumRow

def qualifiedName (r : EnumRow) : QualifiedName := ⟨some r.schema, r.name⟩

/-- The enum with one more label. -/
def extend? (r : EnumRow) : CatalogRecord → Option CatalogRecord
  | .enum last variants =>
    if last == r.qualifiedName then some (.enum last (variants ++ [r.label])) else none
  | _ => none

def add (loaded : List CatalogRecord) (r : EnumRow) : List CatalogRecord :=
  extendLast r.extend? (.enum r.qualifiedName [r.label]) loaded

def toRecords (rows : List EnumRow) : List CatalogRecord := rows.foldl add []

end EnumRow

namespace AttributeRow

def qualifiedName (r : AttributeRow) : QualifiedName := ⟨some r.schema, r.name⟩

def toAttribute (r : AttributeRow) : Attribute := ⟨r.member, r.pgType, !r.notNull⟩

/-- The composite type with one more attribute. -/
def extend? (r : AttributeRow) : CatalogRecord → Option CatalogRecord
  | .composite last attributes =>
    if last == r.qualifiedName then some (.composite last (attributes ++ [r.toAttribute])) else none
  | _ => none

def add (loaded : List CatalogRecord) (r : AttributeRow) : List CatalogRecord :=
  extendLast r.extend? (.composite r.qualifiedName [r.toAttribute]) loaded

def toRecords (rows : List AttributeRow) : List CatalogRecord := rows.foldl add []

end AttributeRow

def FunctionRow.toRecord (r : FunctionRow) : CatalogRecord :=
  .function ⟨some r.schema, r.name⟩ r.args r.returns r.isAggregate

/-! ## What to ask the database for -/

/-- Why no database can be reached: there is no client for it. -/
def noDatabase : FetchError :=
  ⟨.configuration, "PostgreSQL support not compiled. Rebuild with: cargo build --features postgres"⟩

/-- The names without schemas, sorted and without repetitions. -/
def plainNames (names : List QualifiedName) : List String :=
  ((names.map (·.name)).mergeSort fun a b => a ≤ b).eraseReps

/-- The schemas of the search path, then those of qualified names. -/
def Requests.schemas (r : Requests) (searchPath : List String) : List String :=
  (r.keys.filterMap (·.name.schema)).foldl
    (fun schemas s => if schemas.contains s then schemas else schemas ++ [s]) searchPath

end SqlTyping
