import SqlTyping.Interface.Param
import SqlTyping.Text.Fold
import SqlTyping.TypeExpr.Basic

/-!
# Interfaces of statements

What a statement needs and gives: the sources it reads, its parameters and its result columns. An
interface is what can be said without the catalog; with the catalog it becomes a `TypedInterface`.
-/

namespace SqlTyping

structure ResultColumn where
  name : String
  type : TypeExpr
  span : Span
deriving DecidableEq, Inhabited

mutual

/-- What columns can be taken from. Sources that are no result only filter rows or feed values. -/
inductive Source where
  /-- A table or view of the catalog. -/
  | table (schema : Option String) (table : String) (asName : Option String) (isResult : Bool)
      (span : Span)
  /-- A query with a name. -/
  | query (name : String) (query : Interface) (isResult : Bool)
  /-- Rows of values, whose columns may have names. -/
  | values (name : String) (columns : Option (List String)) (types : List TypeExpr)
      (isResult : Bool)

structure Interface where
  sources : List Source
  params : List (Param TypeExpr)
  results : List ResultColumn
  /-- The sources whose columns may all be null, since they are on the optional side of a join. -/
  nullableSources : List String

end

namespace Source

/-- The name that qualifies the columns of a source. -/
def name : Source → String
  | .table _ name asName _ _ => asName.getD name
  | .query name _ _ | .values name _ _ _ => name

def isResult : Source → Bool
  | .table _ _ _ isResult _ | .query _ _ isResult | .values _ _ _ isResult => isResult

def withResult (isResult : Bool) : Source → Source
  | .table schema name asName _ span => .table schema name asName isResult span
  | .query name q _ => .query name q isResult
  | .values name columns types _ => .values name columns types isResult

def renamed (name : String) : Source → Source
  | .table schema t _ isResult span => .table schema t (some name) isResult span
  | .query _ q isResult => .query name q isResult
  | .values _ columns types isResult => .values name columns types isResult

/-- Is the source known by its name alone, so that it hides a table of that name? -/
def isNamedQuery : Source → Bool
  | .table .. => false
  | .query .. | .values .. => true

def isNamed (name : String) (source : Source) : Bool := Text.eqFold source.name name

end Source

namespace Interface

def empty : Interface := ⟨[], [], [], []⟩

instance : Inhabited Interface := ⟨empty⟩

def addParam (q : Interface) (p : Param TypeExpr) : Interface :=
  { q with params := Param.insert TypeExpr.unionOf q.params p }

def addSource (q : Interface) (source : Source) : Interface :=
  { q with sources := q.sources ++ [source] }

def addResult (q : Interface) (column : ResultColumn) : Interface :=
  { q with results := q.results ++ [column] }

/-- May all columns of the source be null? -/
def isNullable (q : Interface) (name : String) : Bool :=
  q.nullableSources.any (Text.eqFold · name)

def setNullable (q : Interface) (name : String) : Interface :=
  if q.isNullable name then q else { q with nullableSources := q.nullableSources ++ [name] }

def findSource? (q : Interface) (name : String) : Option Source := q.sources.find? (·.isNamed name)

/-- The interface with names for its result columns by position. A star keeps its name. -/
def renameResults (q : Interface) (names : List String) : Interface :=
  let named := (q.results.zip names).map fun (column, name) =>
    if column.name == "*" then column else { column with name }
  { q with results := named ++ q.results.drop names.length }

end Interface

/-! ## Parameters of nested queries -/

mutual

/-- Adds the parameters of an interface and of all queries in it. -/
def Interface.collectParams (q : Interface) (params : List (Param TypeExpr)) :
    List (Param TypeExpr) :=
  match q with
  | ⟨sources, own, _, _⟩ =>
    Source.collectParamsList sources (Param.insertAll TypeExpr.unionOf params own)

def Source.collectParams (source : Source) (params : List (Param TypeExpr)) :
    List (Param TypeExpr) :=
  match source with
  | .query _ q _ => q.collectParams params
  | .table .. | .values .. => params

def Source.collectParamsList (sources : List Source) (params : List (Param TypeExpr)) :
    List (Param TypeExpr) :=
  match sources with
  | [] => params
  | source :: rest => Source.collectParamsList rest (source.collectParams params)

end

/-- All parameters of a statement, merged by name. -/
def Interface.allParams (q : Interface) : List (Param TypeExpr) := q.collectParams []

/-! ## Typed interfaces -/

/-- The interface of a statement for a given catalog. -/
structure TypedInterface where
  params : List (Param SqlType)
  results : List (Field SqlType)
deriving DecidableEq, Inhabited

namespace TypedInterface

def empty : TypedInterface := ⟨[], []⟩

def addParam (q : TypedInterface) (p : Param SqlType) : TypedInterface :=
  { q with params := Param.insert SqlType.union q.params p }

def param? (q : TypedInterface) (name : String) : Option (Param SqlType) :=
  q.params.find? (·.name == name)

def result? (q : TypedInterface) (name : String) : Option (Field SqlType) :=
  q.results.find? (·.name == name)

end TypedInterface

end SqlTyping
