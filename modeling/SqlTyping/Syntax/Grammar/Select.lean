import SqlTyping.Syntax.Grammar.Relation

/-!
# Queries
-/

namespace SqlTyping.Grammar

open Rule

variable (g : Grammar)

def distinctOn : Rule (List Expr) := do
  let _ ← keyword "ON"
  parens g.exprs

def distinct : Rule Distinct := do
  if ← found (keyword "ALL") then return .all
  else if ← found (keyword "DISTINCT") then
    match ← maybe g.distinctOn with
    | some exprs => return .on exprs
    | none => return .distinct
  else return .absent

/-- `ALL` or `DISTINCT` after a set operator or `GROUP BY`. -/
def keepsDuplicates : Rule Bool := do
  match ← maybe (oneOf [("ALL", true), ("DISTINCT", false)]) with
  | some word => return word.value
  | none => return false

def fromClause (word : String) : Rule (List Relation) := do
  if ← found (keyword word) then g.relations else return []

def noColumns : Rule Span := do
  let _ ← punct "("
  punct ")"

/-- An item of `GROUP BY`; `()` groups all rows. -/
def groupItem : Rule Expr := do
  let start ← begin
  if ← found noColumns then return .row [] (← spanFrom start) else g.expr

def groupBy : Rule (List Expr) := do
  if ← found (keywords ["GROUP", "BY"]) then
    let _ ← keepsDuplicates
    separated "," g.groupItem
  else return []

def having : Rule (Option Expr) := do
  if ← found (keyword "HAVING") then return some (← g.expr) else return none

def namedWindow : Rule NamedWindow := do
  let name ← ident
  let _ ← keyword "AS"
  let spec ← parens g.windowSpec
  return { name, spec }

def windows : Rule (List NamedWindow) := do
  if ← found (keyword "WINDOW") then separated "," g.namedWindow else return []

def select : Rule Select := do
  let start ← begin
  let _ ← keyword "SELECT"
  let quantity ← g.distinct
  let items ← maybeD [] (separated "," g.selectItem)
  let relations ← g.fromClause "FROM"
  let selection ← g.selection
  let groupBy ← g.groupBy
  let having ← g.having
  let windows ← g.windows
  return {
    distinct := quantity, items, relations, selection, groupBy, having, windows
    span := ← spanFrom start }

/-- `VALUES (a, b), (c, d)`. -/
def values : Rule Values := do
  let start ← begin
  let _ ← keyword "VALUES"
  let rows ← separated "," (parens g.exprs)
  return { rows, span := ← spanFrom start }

def setTerm : Rule SetExpr := do
  match ← maybe g.select with
  | some select => return .select select
  | none =>
    match ← maybe g.values with
    | some values => return .values values
    | none => return .nested (← parens g.query)

/-- A set operator of the given words, and the `operand` after it. -/
def setStep (words : List (String × SetOperator)) (operand : Rule SetExpr) :
    Rule (SetOperator × Bool × SetExpr) := do
  let op ← oneOf words
  let all ← keepsDuplicates
  return (op.value, all, ← operand)

/-- Operands joined by set operators of one precedence. -/
def setChain (words : List (String × SetOperator)) (operand : Rule SetExpr) : Rule SetExpr := do
  let start ← begin
  let first ← operand
  let step (left : SetExpr) : Rule (Option SetExpr) := do
    match ← maybe (setStep words operand) with
    | some (op, all, right) => return some (.operation op all left right (← spanFrom start))
    | none => return none
  grow step first

/-- `INTERSECT` binds tighter than the other set operators. -/
def setExpr : Rule SetExpr :=
  setChain [("UNION", .union), ("EXCEPT", .except)] (setChain [("INTERSECT", .intersect)] g.setTerm)

/-! ## Clauses after a set operation -/

def fetchEnd : Rule Unit := do
  match ← maybe (keyword "ONLY") with
  | some _ => return
  | none =>
    let _ ← keywords ["WITH", "TIES"]
    return

/-- `LIMIT n`, `LIMIT ALL`, which is no limit, or `FETCH FIRST n ROWS ONLY`. -/
def limitClause : Rule (Option Expr) := do
  if ← found (keyword "LIMIT") then
    if ← found (keyword "ALL") then return none else return some (← g.expr)
  else
    let _ ← keyword "FETCH"
    let _ ← anyOf ["FIRST", "NEXT"]
    let count ← maybe g.expr
    let _ ← anyOf ["ROWS", "ROW"]
    fetchEnd
    return count

def offsetClause : Rule Expr := do
  let _ ← keyword "OFFSET"
  let value ← g.expr
  let _ ← found (anyOf ["ROWS", "ROW"])
  return value

/-- Either clause, where it is still missing. -/
def limitStep (limit offset : Option Expr) :
    Rule (Option (Option Expr × Option Expr)) := do
  match ← if limit.isNone then maybe g.limitClause else pure none with
  | some limit => return some (limit, offset)
  | none =>
    match ← if offset.isNone then maybe g.offsetClause else pure none with
    | some value => return some (limit, some value)
    | none => return none

/-- At most `n` clauses that limit the rows, in any order. -/
def limits (g : Grammar) : (n : Nat) → (limit offset : Option Expr) →
    Rule (Option Expr × Option Expr)
  | 0, limit, offset => return (limit, offset)
  | n + 1, limit, offset => do
    match ← g.limitStep limit offset with
    | some (limit, offset) => g.limits n limit offset
    | none => return (limit, offset)

def lockStrength : Rule String := do
  if ← found (keyword "UPDATE") then return "UPDATE"
  else if ← found (keywords ["NO", "KEY", "UPDATE"]) then return "NO KEY UPDATE"
  else if ← found (keyword "SHARE") then return "SHARE"
  else
    let _ ← keywords ["KEY", "SHARE"]
    return "KEY SHARE"

def lockedTables : Rule (List ObjectName) := do
  let _ ← keyword "OF"
  separated "," objectName

def lockWait : Rule Unit := do
  if ← found (keyword "NOWAIT") then return
  else
    let _ ← found (keywords ["SKIP", "LOCKED"])
    return

/-- `FOR UPDATE [OF tables] [NOWAIT | SKIP LOCKED]`. -/
def locking : Rule Locking := do
  let start ← begin
  let _ ← keyword "FOR"
  let strength ← lockStrength
  let tables ← maybeD [] lockedTables
  lockWait
  return { strength, tables, span := ← spanFrom start }

/-- A query without its `WITH` clause, which starts at `start`. -/
def queryBody (start : Nat) (withClause : Option With) : Rule Query := do
  let body ← g.setExpr
  let orderBy ← maybeD [] g.orderBy
  let (limit, offset) ← g.limits 3 none none
  let locking ← star locking
  return { withClause, body, orderBy, limit, offset, locking, span := ← spanFrom start }

end SqlTyping.Grammar
