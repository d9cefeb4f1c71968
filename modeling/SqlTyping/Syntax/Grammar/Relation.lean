import SqlTyping.Syntax.Grammar.Call

/-!
# Relations
-/

namespace SqlTyping.Grammar

open Rule

/-- `[AS] name [(column, ...)]`. -/
def tableAlias : Rule TableAlias := do
  let name ← asName
  let columns ← maybeD [] identList
  return { name, columns }

/-- The keywords of a join, `OUTER` being optional. -/
def outerJoin (word : String) : Rule Span := do
  let _ ← keyword word
  let _ ← found (keyword "OUTER")
  keyword "JOIN"

def innerJoin : Rule Span := do
  let _ ← found (keyword "INNER")
  keyword "JOIN"

def joinKind : Rule JoinKind := do
  if ← found (keywords ["CROSS", "JOIN"]) then return .cross
  else if ← found (outerJoin "LEFT") then return .left
  else if ← found (outerJoin "RIGHT") then return .right
  else if ← found (outerJoin "FULL") then return .full
  else
    let _ ← innerJoin
    return .inner

def joinConstraint (g : Grammar) (isNatural : Bool) (kind : JoinKind) : Rule JoinConstraint := do
  if isNatural then return .natural
  else if kind == .cross then return .none
  else if ← found (keyword "ON") then return .condition (← g.expr)
  else if ← found (keyword "USING") then return .columns (← identList)
  else return .none

def ordinality : Rule Span := keywords ["WITH", "ORDINALITY"]

def table (start : Nat) : Rule Relation := do
  let _ ← found (keyword "ONLY")
  let name ← objectName
  let _ ← found (punct "*")
  let asName ← maybe tableAlias
  return .table name asName (← spanFrom start)

/-- A relation without joins: a query or relation in parentheses, a function, or a table. -/
def relation (g : Grammar) : Rule Relation := do
  let start ← begin
  let lateral ← found (keyword "LATERAL")
  match ← maybe (parens g.query) with
  | some subquery =>
    let asName ← maybe tableAlias
    return .derived lateral subquery asName (← spanFrom start)
  | none =>
    match ← maybe g.functionCall with
    | some call =>
      let _ ← found ordinality
      let asName ← maybe tableAlias
      return .function lateral call asName (← spanFrom start)
    | none =>
      if lateral then fail "subquery or function"
      else
        match ← maybe (parens g.joined) with
        | some inner =>
          let asName ← maybe tableAlias
          return .nested inner asName (← spanFrom start)
        | none => table start

/-- A join to the relation before it. -/
def join (g : Grammar) : Rule (Relation → Relation) := do
  let start ← begin
  let isNatural ← found (keyword "NATURAL")
  let kind ← joinKind
  let right ← g.relation
  let constraint ← g.joinConstraint isNatural kind
  let span ← spanFrom start
  return fun left => .join left kind right constraint span

def joins (g : Grammar) : Rule Relation := do
  let first ← g.relation
  let joins ← star g.join
  return joins.foldl (fun left join => join left) first

/-- The items of `FROM` or `USING`. -/
def relations (g : Grammar) : Rule (List Relation) := separated "," g.joins

end SqlTyping.Grammar
