import SqlTyping.Extraction.Basic
import SqlTyping.Resolution.Type

/-!
# Resolution

`Interface.resolve` types an interface for a store of catalog records. The sources come first, the
tables before all others, since subqueries and functions can refer to them; then the result columns
and the parameters are typed in the scope of the sources.

The columns of a view come from its query, which is resolved in turn. A view that is open is not
opened again, so the views that are open at one time are pairwise different. The columns of each
view are kept, also for later statements.
-/

namespace SqlTyping

/-- The columns of views that have been typed. -/
abbrev ViewColumns := List (QualifiedName × List (Field SqlType))

/-- Resolution keeps the views it has typed, also when it fails. -/
abbrev Resolve := ExceptT LoadError (StateM ViewColumns)

/-- How the columns of a view are found. -/
abbrev ViewReader := QualifiedName → String → List Column → Resolve (List (Field SqlType))

structure ResolveContext where
  store : Store
  mode : ResolveMode
  views : ViewReader

def ofOutcome (outcome : Except LoadError α) : Resolve α := ExceptT.mk (pure outcome)

/-- The resolution with its errors at a span. -/
def atSpan (span : Span) (act : Resolve α) : Resolve α := act.adapt (·.withSpan span)

namespace ResolveContext

def typeContext (ctx : ResolveContext) (levels : List Level) (position : ColumnPosition) :
    TypeContext := ⟨ctx.store, ctx.mode, levels, position⟩

/-- The source for a table or view. An error inside a view is an error of the reference to it. A
table that is not found is left out in lenient mode. -/
def table (ctx : ResolveContext) : Source → Resolve (Option TypedSource)
  | .table schema name asName isResult span =>
    let source (found : QualifiedName) (columns : List (Field SqlType)) : Option TypedSource :=
      some ⟨asName.getD name, some found, isResult, columns⟩
    match ctx.store.table? ⟨schema, name⟩ with
    | some (.table found columns) => do
      return source found (← ofOutcome (ctx.store.typeColumns columns))
    | some (.view found text columns) => do
      return source found (← atSpan span (ctx.views found text columns))
    | _ =>
      match ctx.mode with
      | .lenient => return none
      | .strict => throw ⟨.tableNotFound ⟨schema, name⟩, some span⟩
  | _ => return none

def tables (ctx : ResolveContext) : List Source → Resolve Level
  | [] => return []
  | source :: rest => do
    let found ← ctx.table source
    return found.toList ++ (← ctx.tables rest)

/-- Rows of values have columns `column1`, `column2` and so on where they have no names. -/
def valueColumns (ctx : ResolveContext) (levels : List Level) (names : Option (List String)) :
    (position : Nat) → List TypeExpr → Except LoadError (List (Field SqlType))
  | _, [] => .ok []
  | i, t :: rest => do
    let name := (names.bind (·[i]?)).getD ("column" ++ toString (i + 1))
    let t ← t.resolve (ctx.typeContext levels .other)
    return ⟨name, t⟩ :: (← ctx.valueColumns levels names (i + 1) rest)

/-- A result column, or the columns that a star stands for. -/
def resultColumns (ctx : ResolveContext) (level : Level) (outer : List Level) :
    ResultColumn → Except LoadError (List (Field SqlType))
  | ⟨_, .star schema table span, _⟩ => level.star ctx.mode schema table span
  | ⟨name, t, _⟩ => do return [⟨name, ← t.resolve (ctx.typeContext (level :: outer) .result)⟩]

/-- A parameter that must not be null is not nullable. -/
def param (ctx : ResolveContext) (levels : List Level) (p : Param TypeExpr) :
    Except LoadError (Param SqlType) := do
  let t ← p.type.resolve (ctx.typeContext levels .other)
  let type := if p.required then t.withNullable false else t
  return ⟨p.name, type, p.spans, p.required, p.spread, p.pick⟩

/-- The typed interface of a query with the given sources, where `nested` are the parameters of
queries among them. -/
def finish (ctx : ResolveContext) (level : Level) (outer : List Level)
    (params : List (Param TypeExpr)) (results : List ResultColumn) (nested : List (Param SqlType)) :
    Except LoadError TypedInterface := do
  let columns ← results.mapM (ctx.resultColumns level outer)
  let params ← params.mapM (ctx.param (level :: outer))
  return (params ++ nested).foldl TypedInterface.addParam ⟨[], columns.flatten⟩

end ResolveContext

/-- Makes the columns of the named sources nullable. -/
def Level.setNullable (level : Level) (names : List String) : Level :=
  level.map fun s => if names.any (Text.eqFold · s.name) then s.setNullable else s

mutual

def Interface.resolveIn (ctx : ResolveContext) (q : Interface) (outer : List Level) :
    Resolve TypedInterface :=
  match q with
  | ⟨sources, params, results, nullableSources⟩ => do
    let tables ← ctx.tables sources
    let (level, nested) ← Source.resolveList ctx sources outer tables
    ofOutcome (ctx.finish (level.setNullable nullableSources) outer params results nested)

/-- A source that is no table, in the scope of those before it, and the parameters of its query. -/
def Source.resolve (ctx : ResolveContext) (source : Source) (outer : List Level) (level : Level) :
    Resolve (List TypedSource × List (Param SqlType)) :=
  match source with
  | .table .. => return ([], [])
  | .query name q isResult => do
    let typed ← q.resolveIn ctx (level :: outer)
    return ([⟨name, none, isResult, typed.results⟩], typed.params)
  | .values name columns types isResult => do
    let columns ← ofOutcome (ctx.valueColumns (level :: outer) columns 0 types)
    return ([⟨name, none, isResult, columns⟩], [])

def Source.resolveList (ctx : ResolveContext) (sources : List Source) (outer : List Level)
    (level : Level) : Resolve (Level × List (Param SqlType)) :=
  match sources with
  | [] => return (level, [])
  | source :: rest => do
    let (found, params) ← Source.resolve ctx source outer level
    let (level, more) ← Source.resolveList ctx rest outer (level ++ found)
    return (level, params ++ more)

end

/-! ## Views -/

/-- The columns of a view, given how its query is resolved. They are kept once they are known. In
lenient mode, a view whose text is no statement has the columns of the catalog. -/
def viewColumns (store : Store) (mode : ResolveMode) (opened : List QualifiedName)
    (query : Interface → Resolve TypedInterface) : ViewReader := fun name text columns => do
  match (← get).lookup name with
  | some columns => return columns
  | none =>
    if opened.contains name then throw { problem := .viewCycle name opened }
    let keep (columns : List (Field SqlType)) : Resolve (List (Field SqlType)) := do
      modify ((name, columns) :: ·)
      return columns
    match parse text, mode with
    | .ok statement, _ => keep (← query (statement.interface [])).results
    | .error _, .lenient => keep (← ofOutcome (store.typeColumns columns))
    | .error e, .strict => throw { problem := .viewSyntax name e }

/-- The columns of a view while the views `opened` are open, for at most `depth` more views. -/
def readView (store : Store) (mode : ResolveMode) :
    (depth : Nat) → (opened : List QualifiedName) → ViewReader
  | 0, opened => fun name _ _ => throw { problem := .viewCycle name opened }
  | depth + 1, opened => fun name text columns =>
    let inner : ResolveContext := ⟨store, mode, readView store mode depth (opened ++ [name])⟩
    viewColumns store mode opened (fun q => q.resolveIn inner []) name text columns

/-- There cannot be more open views than records. -/
def ResolveContext.ofStore (store : Store) (mode : ResolveMode) : ResolveContext :=
  ⟨store, mode, readView store mode (store.records.length + 1) []⟩

/-- Types an interface, with the views of `views` known, and gives the views known afterwards. -/
def Interface.resolveWith (store : Store) (mode : ResolveMode) (q : Interface)
    (views : ViewColumns) : Except LoadError TypedInterface × ViewColumns :=
  (q.resolveIn (.ofStore store mode) []).run.run views

/-- Types an interface. -/
def Interface.resolve (store : Store) (mode : ResolveMode) (q : Interface) :
    Except LoadError TypedInterface :=
  (q.resolveWith store mode []).1

end SqlTyping
