import SqlTyping.Syntax.Grammar.Select

/-!
# Statements that change rows

The rules for `INSERT`, `UPDATE` and `DELETE` are given where the statement starts and its `WITH`
clause, which have been read before.
-/

namespace SqlTyping.Grammar

open Rule

variable (g : Grammar)

def returning : Rule (List SelectItem) := do
  if ← found (keyword "RETURNING") then separated "," g.selectItem else return []

/-! ## Assignments -/

/-- A column; a table before it is dropped. -/
def assignedColumn : Rule Ident := do
  let first ← ident
  return (← maybe (dotted ident)).getD first

def assignedColumns : Rule (List Ident) := do
  match ← maybe identList with
  | some columns => return columns
  | none => return [← assignedColumn]

/-- `column = value` or `(a, b) = (x, y)`. -/
def assignment : Rule Assignment := do
  let start ← begin
  let columns ← assignedColumns
  let _ ← symbol "="
  let value ← g.expr
  return { columns, value, span := ← spanFrom start }

/-! ## Insert -/

/-- `VALUES $$rows(a, b)`. -/
def spreadRows : Rule ParamRef := do
  let _ ← keyword "VALUES"
  let ref ← paramRef
  if ref.spread then return ref else fail "spread parameter"

/-- Does a list of rows end here, so that it is no part of a longer query? -/
def endsRows : Rule Bool := do
  if ← peek (keyword "ON") then return true
  else if ← peek (keyword "RETURNING") then return true
  else if ← peek (punct ")") then return true
  else if ← peek (punct ";") then return true
  else atEnd

def plainRows : Rule Values := do
  let rows ← g.values
  if ← endsRows then return rows else fail "ON CONFLICT or RETURNING"

def insertSource : Rule InsertSource := do
  if ← found (keywords ["DEFAULT", "VALUES"]) then return .defaultValues
  else
    match ← maybe spreadRows with
    | some ref => return .param ref
    | none =>
      match ← maybe g.plainRows with
      | some rows => return .values rows
      | none => return .query (← g.query)

def indexPredicate : Rule Expr := do
  let _ ← keyword "WHERE"
  g.expr

/-- Columns, whose index predicate is dropped, or a constraint. -/
def conflictTarget : Rule (Option ConflictTarget) := do
  match ← maybe identList with
  | some columns =>
    let _ ← found g.indexPredicate
    return some (.columns columns)
  | none =>
    if ← found (keywords ["ON", "CONSTRAINT"]) then return some (.constraint (← ident))
    else return none

def onConflict : Rule OnConflict := do
  let start ← begin
  let _ ← keywords ["ON", "CONFLICT"]
  let target ← g.conflictTarget
  let _ ← keyword "DO"
  if ← found (keyword "NOTHING") then return .doNothing target (← spanFrom start)
  else
    let _ ← keywords ["UPDATE", "SET"]
    let assignments ← separated "," g.assignment
    let selection ← g.selection
    return .doUpdate target assignments selection (← spanFrom start)

def insertAlias : Rule Ident := do
  let _ ← keyword "AS"
  ident

def insert (start : Nat) (withClause : Option With) : Rule Insert := do
  let _ ← keywords ["INSERT", "INTO"]
  let table ← objectName
  let asName ← maybe insertAlias
  let columns ← maybeD [] identList
  let source ← g.insertSource
  let onConflict ← maybe g.onConflict
  let returning ← g.returning
  return {
    withClause, table, asName, columns, source, onConflict, returning, span := ← spanFrom start }

/-! ## Update and delete -/

/-- An alias that is not the keyword of the clause that comes next. -/
def targetAlias (next : String) : Rule Ident := do
  let name ← asName
  if name.quoted || !Text.eqFold name.value next then return name else fail "alias"

/-- The table that is changed, and its alias. -/
def changedTable (next : String) : Rule (ObjectName × Option Ident) := do
  let _ ← found (keyword "ONLY")
  let table ← objectName
  let _ ← found (punct "*")
  return (table, ← maybe (targetAlias next))

def update (start : Nat) (withClause : Option With) : Rule Update := do
  let _ ← keyword "UPDATE"
  let (table, asName) ← changedTable "set"
  let _ ← keyword "SET"
  let assignments ← separated "," g.assignment
  let relations ← g.fromClause "FROM"
  let selection ← g.selection
  let returning ← g.returning
  return {
    withClause, table, asName, assignments, relations, selection, returning
    span := ← spanFrom start }

def delete (start : Nat) (withClause : Option With) : Rule Delete := do
  let _ ← keywords ["DELETE", "FROM"]
  let (table, asName) ← changedTable "using"
  let relations ← g.fromClause "USING"
  let selection ← g.selection
  let returning ← g.returning
  return { withClause, table, asName, relations, selection, returning, span := ← spanFrom start }

end SqlTyping.Grammar
