import SqlTyping.Span

/-!
# Syntax trees

The shape of a parsed statement. Every node remembers the span of text it was read from, except
where the span of a child says it already.
-/

namespace SqlTyping

/-- An identifier. Unquoted identifiers are kept in lower case, quoted ones as they were written. -/
structure Ident where
  value : String
  quoted : Bool
  span : Span
deriving DecidableEq, Inhabited

/-- `name` or `schema.name`. -/
structure ObjectName where
  schema : Option Ident
  name : Ident
  span : Span
deriving DecidableEq, Inhabited

/-- A parameter: `$name`, `$name!`, `$$name` or `$$name(a, b)`. -/
structure ParamRef where
  name : String
  required : Bool
  spread : Bool
  pick : List Ident
  span : Span
deriving DecidableEq, Inhabited

/-- A type as written in a cast or before a string: `varchar(255)`, `timestamp with time zone`,
`app.mood[]`. The words of a name of several words are joined by one blank. -/
structure DataType where
  schema : Option String
  name : String
  modifiers : List String
  dimensions : Nat
  span : Span
deriving DecidableEq, Inhabited

inductive Literal where
  /-- A numeral, as written. -/
  | number (text : String)
  | string (value : String)
  | boolean (value : Bool)
  | null
deriving DecidableEq, Inhabited

/-- `AND`, `OR`, `NOT`, `AT TIME ZONE`, or an operator symbol such as `->>`. -/
structure Operator where
  symbol : String
  span : Span
deriving DecidableEq, Inhabited

/-- What `IS` asks about a value. -/
inductive TruthTest where
  | null
  | true
  | false
  | unknown
deriving DecidableEq, Inhabited

inductive LikeKind where
  | like
  | ilike
  | similarTo
deriving DecidableEq, Inhabited

inductive Quantifier where
  | any
  | all
deriving DecidableEq, Inhabited

/-- Values that are written as a keyword without parentheses. -/
inductive CurrentKind where
  | date
  | time
  | timestamp
  | localTime
  | localTimestamp
  | user
deriving DecidableEq, Inhabited

inductive SetOperator where
  | union
  | intersect
  | except
deriving DecidableEq, Inhabited

inductive JoinKind where
  | inner
  | left
  | right
  | full
  | cross
deriving DecidableEq, Inhabited

/-- `FOR UPDATE`, `FOR SHARE`, ... -/
structure Locking where
  strength : String
  tables : List ObjectName
  span : Span
deriving DecidableEq, Inhabited

/-- `name (column, ...)` after a source in `FROM`. -/
structure TableAlias where
  name : Ident
  columns : List Ident
deriving DecidableEq, Inhabited

inductive ConflictTarget where
  | columns (names : List Ident)
  | constraint (name : Ident)
deriving DecidableEq, Inhabited

inductive TransactionKind where
  | begin
  | commit
  | rollback (savepoint : Option Ident)
  | savepoint (name : Ident)
  | release (name : Ident)
deriving DecidableEq, Inhabited

structure Transaction where
  kind : TransactionKind
  span : Span
deriving DecidableEq, Inhabited

mutual

inductive Expr where
  | literal (value : Literal) (span : Span)
  | column (schema table : Option Ident) (column : Ident) (span : Span)
  | param (ref : ParamRef)
  | unary (op : Operator) (operand : Expr) (span : Span)
  | binary (left : Expr) (op : Operator) (right : Expr) (span : Span)
  /-- `x IS [NOT] NULL`, and likewise for the truth values. -/
  | is (operand : Expr) (negated : Bool) (test : TruthTest) (span : Span)
  | isDistinctFrom (operand : Expr) (negated : Bool) (other : Expr) (span : Span)
  | between (operand : Expr) (negated symmetric : Bool) (low high : Expr) (span : Span)
  | inList (operand : Expr) (negated : Bool) (list : List Expr) (span : Span)
  | inSubquery (operand : Expr) (negated : Bool) (subquery : Query) (span : Span)
  /-- `x IN $$ids`. -/
  | inParam (operand : Expr) (negated : Bool) (ref : ParamRef) (span : Span)
  | like (operand : Expr) (negated : Bool) (kind : LikeKind) (pattern : Expr)
      (escape : Option Expr) (span : Span)
  /-- `x op ANY (array)`. -/
  | quantified (left : Expr) (op : Operator) (quantifier : Quantifier) (array : Expr) (span : Span)
  /-- `x op ANY (SELECT ...)`. -/
  | quantifiedSubquery (left : Expr) (op : Operator) (quantifier : Quantifier) (query : Query)
      (span : Span)
  /-- `x::type` or `CAST(x AS type)`. -/
  | cast (operand : Expr) (target : DataType) (span : Span)
  /-- `DATE '2020-01-01'`. -/
  | typedString (target : DataType) (value : String) (span : Span)
  | function (call : FunctionCall)
  | case (operand : Option Expr) (whens : List WhenClause) (otherwise : Option Expr) (span : Span)
  /-- `EXISTS (SELECT ...)`. -/
  | existsRow (subquery : Query) (span : Span)
  | subquery (query : Query) (span : Span)
  /-- `ARRAY[...]`. -/
  | array (elements : List Expr) (span : Span)
  /-- `ARRAY(SELECT ...)`. -/
  | arraySubquery (query : Query) (span : Span)
  /-- `ROW(...)` or a list in parentheses, `(a, b)`. -/
  | row (elements : List Expr) (span : Span)
  /-- An expression in parentheses. -/
  | nested (inner : Expr) (span : Span)
  /-- `x[i]` or `x[low:high]`. -/
  | subscript (operand : Expr) (lower upper : Option Expr) (slice : Bool) (span : Span)
  /-- `(x).name`. -/
  | field (operand : Expr) (name : Ident) (span : Span)
  | extract (part : String) (source : Expr) (span : Span)
  | current (kind : CurrentKind) (span : Span)
  /-- `DEFAULT` in `VALUES` or `SET`. -/
  | defaultValue (span : Span)

structure WhenClause where
  condition : Expr
  result : Expr

structure OrderItem where
  expr : Expr
  descending : Bool
  nullsFirst : Option Bool

structure WindowSpec where
  name : Option Ident
  partitionBy : List Expr
  orderBy : List OrderItem
  /-- The frame clause, as written. -/
  frame : Option String

structure FunctionCall where
  name : ObjectName
  args : List Expr
  /-- `count(*)`. -/
  star : Bool
  distinct : Bool
  orderBy : List OrderItem
  filter : Option Expr
  window : Option WindowSpec
  span : Span

structure Values where
  rows : List (List Expr)
  span : Span

inductive SelectItem where
  /-- `*` or `qualifier.*`. -/
  | wildcard (qualifier : Option ObjectName) (span : Span)
  | expr (expr : Expr) (asName : Option Ident) (span : Span)

/-- What stands between `SELECT` and its items. -/
inductive Distinct where
  | absent
  | all
  | distinct
  | on (exprs : List Expr)

inductive JoinConstraint where
  | condition (expr : Expr)
  | columns (names : List Ident)
  | natural
  | none

/-- An item of a `FROM` list. `a JOIN b JOIN c` joins `c` to the join of `a` and `b`; the span of a
join starts at its first keyword. -/
inductive Relation where
  | table (name : ObjectName) (asName : Option TableAlias) (span : Span)
  /-- A query in parentheses. -/
  | derived (lateral : Bool) (subquery : Query) (asName : Option TableAlias) (span : Span)
  /-- A function that returns rows. -/
  | function (lateral : Bool) (call : FunctionCall) (asName : Option TableAlias) (span : Span)
  /-- A relation in parentheses. -/
  | nested (inner : Relation) (asName : Option TableAlias) (span : Span)
  | join (left : Relation) (kind : JoinKind) (right : Relation) (constraint : JoinConstraint)
      (span : Span)

structure NamedWindow where
  name : Ident
  spec : WindowSpec

/-- A `SELECT` without the clauses that may follow a set operation. An empty list stands for an
absent clause, since no clause that is written can be empty. -/
structure Select where
  distinct : Distinct
  items : List SelectItem
  relations : List Relation
  selection : Option Expr
  groupBy : List Expr
  having : Option Expr
  windows : List NamedWindow
  span : Span

inductive SetExpr where
  | select (select : Select)
  | values (values : Values)
  /-- A query in parentheses. -/
  | nested (query : Query)
  | operation (op : SetOperator) (all : Bool) (left right : SetExpr) (span : Span)

structure Query where
  withClause : Option With
  body : SetExpr
  orderBy : List OrderItem
  limit : Option Expr
  offset : Option Expr
  locking : List Locking
  span : Span

structure With where
  recursive : Bool
  ctes : List Cte
  span : Span

/-- One named query of a `WITH` clause. -/
structure Cte where
  name : Ident
  columns : List Ident
  body : CteBody
  span : Span

inductive CteBody where
  | query (query : Query)
  /-- A `VALUES` list and nothing else. -/
  | values (values : Values)
  | insert (insert : Insert)
  | update (update : Update)
  | delete (delete : Delete)

inductive InsertSource where
  | values (values : Values)
  /-- `VALUES $$rows(a, b)`. -/
  | param (ref : ParamRef)
  | query (query : Query)
  | defaultValues

/-- `column = value` or `(a, b) = (x, y)`. -/
structure Assignment where
  columns : List Ident
  value : Expr
  span : Span

inductive OnConflict where
  | doNothing (target : Option ConflictTarget) (span : Span)
  | doUpdate (target : Option ConflictTarget) (assignments : List Assignment)
      (selection : Option Expr) (span : Span)

structure Insert where
  withClause : Option With
  table : ObjectName
  asName : Option Ident
  columns : List Ident
  source : InsertSource
  onConflict : Option OnConflict
  returning : List SelectItem
  span : Span

structure Update where
  withClause : Option With
  table : ObjectName
  asName : Option Ident
  assignments : List Assignment
  relations : List Relation
  selection : Option Expr
  returning : List SelectItem
  span : Span

structure Delete where
  withClause : Option With
  table : ObjectName
  asName : Option Ident
  relations : List Relation
  selection : Option Expr
  returning : List SelectItem
  span : Span

end

inductive Statement where
  | query (query : Query)
  | insert (insert : Insert)
  | update (update : Update)
  | delete (delete : Delete)
  | transaction (transaction : Transaction)

end SqlTyping
