import SqlTyping.Resolution.Problem

/-!
# Column lookup

The sources of one query level with the types of their columns. A column is looked up in the own
level and then in the enclosing ones, from the inside out.
-/

namespace SqlTyping

/-- A source whose columns are typed. -/
structure TypedSource where
  name : String
  /-- The name in the catalog, for references with a schema. -/
  table : Option QualifiedName
  isResult : Bool
  columns : List (Field SqlType)
deriving DecidableEq, Inhabited

namespace TypedSource

/-- The first column with the name. -/
def column? (s : TypedSource) (name : String) : Option (Field SqlType) :=
  s.columns.find? fun c => Text.eqFold c.name name

/-- Is the source meant by the qualifier? Only sources of the catalog have a schema. -/
def isMeant (s : TypedSource) (schema : Option String) (table : String) : Bool :=
  Text.eqFold s.name table
    && match schema with
      | none => true
      | some schema => s.table.any (·.isIn schema)

def setNullable (s : TypedSource) : TypedSource :=
  { s with columns := s.columns.map fun c => { c with value := c.value.withNullable true } }

end TypedSource

/-- Where a column reference stands. -/
inductive ColumnPosition where
  /-- In a result column, where sources that are no result cannot be seen. -/
  | result
  | other
deriving DecidableEq, Inhabited

/-- The typed sources of a query. -/
abbrev Level := List TypedSource

namespace Level

/-- The sources with a column of the name, and that column. -/
def having (level : Level) (column : String) : List (TypedSource × Field SqlType) :=
  level.filterMap fun s => (s.column? column).map (s, ·)

/-- The columns that a reference can mean in this level. Without qualifier, result sources come
first, and the others count only if these have none. -/
def hits (level : Level) (schema table : Option String) (column : String)
    (position : ColumnPosition) : List (TypedSource × Field SqlType) :=
  match table with
  | some table => having (level.filter (·.isMeant schema table)) column
  | none =>
    match having (level.filter (·.isResult)) column, position with
    | [], .other => having (level.filter (!·.isResult)) column
    | found, _ => found

/-- A list with more names, skipping those that are there. -/
def addNames (names more : List String) : List String :=
  more.foldl (fun names n => if names.contains n then names else names ++ [n]) names

def reference (table : Option String) (column : String) : String :=
  match table with
  | some table => table ++ "." ++ column
  | none => column

/-- Looks a column up from the inside out. The innermost level that has it decides. An enclosing
level may be searched in full. `seen` are the sources that have been searched so far. -/
def lookupFrom (schema table : Option String) (column : String) (span : Span) :
    (levels : List Level) → (position : ColumnPosition) → (seen : List String) →
    Except LoadError SqlType
  | [], _, seen => .error ⟨.columnNotFound (reference table column) seen, some span⟩
  | level :: outer, position, seen =>
    match hits level schema table column position with
    | [(_, found)] => .ok found.value
    | [] => lookupFrom schema table column span outer .other (addNames seen (level.map (·.name)))
    | many => .error ⟨.ambiguousColumn (reference table column) (many.map (·.1.name)), some span⟩

def lookup (levels : List Level) (schema table : Option String) (column : String) (span : Span)
    (position : ColumnPosition) : Except LoadError SqlType :=
  lookupFrom schema table column span levels position []

/-- The columns that a star stands for: those of the sources that are meant, or of all result
sources. -/
def star (level : Level) (mode : ResolveMode) (schema table : Option String) (span : Span) :
    Except LoadError (List (Field SqlType)) :=
  match table with
  | none => .ok ((level.filter (·.isResult)).flatMap (·.columns))
  | some table =>
    match level.filter (·.isMeant schema table), mode with
    | [], .strict => .error ⟨.starNotFound table (level.map (·.name)), some span⟩
    | meant, _ => .ok (meant.flatMap (·.columns))

end Level

end SqlTyping
