import SqlTyping.Syntax.Grammar.Change
import SqlTyping.Syntax.Grammar.Operand
import SqlTyping.Syntax.Grammar.Transaction

/-!
# Statements

Here the rules are tied together. `Grammar.within n` is the grammar for constructs inside which at
most `n` constructs stand around each other; since each of them starts with a token of its own
around the next one, `n` need not be larger than the text is long.
-/

namespace SqlTyping.Grammar

open Rule

variable (g : Grammar)

/-! ## With clauses -/

/-- A statement that may stand in a `WITH` clause, with a `WITH` clause of its own. -/
def nestedChange (g : Grammar) (change : Nat → Option With → Rule α) : Rule α := do
  let start ← begin
  let withClause ← maybe g.withClause
  change start withClause

/-- A query that is nothing but a list of rows. -/
def rowsOnly? : Query → Option Values
  | ⟨none, .values values, [], none, none, _, _⟩ => some values
  | _ => none

def cteBody : Rule CteBody := do
  match ← maybe (g.nestedChange g.insert) with
  | some insert => return .insert insert
  | none =>
    match ← maybe (g.nestedChange g.update) with
    | some update => return .update update
    | none =>
      match ← maybe (g.nestedChange g.delete) with
      | some delete => return .delete delete
      | none =>
        let query ← g.query
        match rowsOnly? query with
        | some values => return .values values
        | none => return .query query

def materialized : Rule Bool := do
  if ← found (keywords ["NOT", "MATERIALIZED"]) then return true
  else found (keyword "MATERIALIZED")

/-- `name [(columns)] AS [[NOT] MATERIALIZED] (body)`. -/
def cte : Rule Cte := do
  let start ← begin
  let name ← ident
  let columns ← maybeD [] identList
  let _ ← keyword "AS"
  let _ ← materialized
  let body ← parens g.cteBody
  return { name, columns, body, span := ← spanFrom start }

def ctes : Rule With := do
  let start ← begin
  let _ ← keyword "WITH"
  let recursive ← found (keyword "RECURSIVE")
  let ctes ← separated "," g.cte
  return { recursive, ctes, span := ← spanFrom start }

def fullQuery : Rule Query := do
  let start ← begin
  let withClause ← maybe g.ctes
  g.queryBody start withClause

/-! ## The whole grammar -/

def within : (n : Nat) → Grammar
  | 0 => {
    level := fun _ => reject, unary := reject, query := reject, arrayElements := reject
    joined := reject, withClause := reject }
  | n + 1 => {
    level := fun min ctx c => (within n).operators (within n).signed min ctx c
    unary := fun ctx c => (within n).signed ctx c
    query := nested fun ctx c => (within n).fullQuery ctx c
    arrayElements := fun ctx c => (within n).innerArray ctx c
    joined := fun ctx c => (within n).joins ctx c
    withClause := fun ctx c => (within n).ctes ctx c }

/-- The grammar for all constructs of a text. -/
def ofText (text : String) : Grammar := within (text.length + 1)

/-- What a `WITH` clause is followed by, if that is no query. -/
inductive ChangeKind where
  | insert
  | update
  | delete

def changeKind : Rule ChangeKind := do
  if ← peek (keyword "INSERT") then return .insert
  else if ← peek (keyword "UPDATE") then return .update
  else if ← peek (keyword "DELETE") then return .delete
  else reject

/-- The `WITH` clause of a statement that is no query. -/
def changeHead : Rule (Option With × ChangeKind) := do
  let withClause ← maybe g.withClause
  return (withClause, ← changeKind)

def statement : Rule Statement := do
  match ← maybe transaction with
  | some transaction => return .transaction transaction
  | none =>
    let start ← begin
    match ← maybe g.changeHead with
    | some (withClause, .insert) => return .insert (← g.insert start withClause)
    | some (withClause, .update) => return .update (← g.update start withClause)
    | some (withClause, .delete) => return .delete (← g.delete start withClause)
    | none => return .query (← g.query)

end SqlTyping.Grammar
