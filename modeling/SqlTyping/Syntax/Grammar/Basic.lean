import SqlTyping.Syntax.Grammar.Name

/-!
# Rules that refer to each other

The grammar is recursive: expressions hold queries and queries hold expressions. A `Grammar` gives
the rules for the parts of a construct; each construct is a function from such a grammar to a rule.
-/

namespace SqlTyping

structure Grammar where
  /-- An expression whose outermost operator is of the given level or a tighter one. -/
  level : Nat → Rule Expr
  /-- An expression whose outermost operator stands before or after its operand. -/
  unary : Rule Expr
  query : Rule Query
  /-- The elements of an array in brackets. -/
  arrayElements : Rule Expr
  /-- A relation with the joins that follow it. -/
  joined : Rule Relation
  withClause : Rule With

namespace Grammar

variable (g : Grammar)

open Rule

/-- Any expression. -/
def expr : Rule Expr := nested (g.level 0)

def exprs : Rule (List Expr) := separated "," g.expr

/-- A query and the parenthesis that closes it, if a query starts here. -/
def closedQuery : Rule (Option Query) := do
  if ← startsQuery then
    maybe do
      let query ← g.query
      let _ ← punct ")"
      return query
  else return none

/-- `WHERE condition`. -/
def selection : Rule (Option Expr) := do
  if ← found (keyword "WHERE") then return some (← g.expr) else return none

def descending : Rule Bool := do
  match ← maybe (oneOf [("ASC", false), ("DESC", true)]) with
  | some order => return order.value
  | none => return false

def nullsFirst : Rule Bool := do
  let _ ← keyword "NULLS"
  return (← oneOf [("FIRST", true), ("LAST", false)]).value

/-- `expr [ASC | DESC] [NULLS FIRST | NULLS LAST]`. -/
def orderItem : Rule OrderItem := do
  let expr ← g.expr
  let descending ← descending
  let nullsFirst ← maybe nullsFirst
  return { expr, descending, nullsFirst }

def orderBy : Rule (List OrderItem) := do
  let _ ← keywords ["ORDER", "BY"]
  separated "," g.orderItem

/-- `qualifier.*`. -/
def qualifiedStar : Rule ObjectName := do
  let name ← objectName
  let _ ← punct "."
  let _ ← punct "*"
  return name

/-- `*`, `qualifier.*`, or an expression with an optional alias. -/
def selectItem : Rule SelectItem := do
  let start ← begin
  if ← found (punct "*") then return .wildcard none (← spanFrom start)
  else
    match ← maybe qualifiedStar with
    | some qualifier => return .wildcard (some qualifier) (← spanFrom start)
    | none =>
      let expr ← g.expr
      let asName ← maybe asName
      return .expr expr asName (← spanFrom start)

end Grammar

end SqlTyping
