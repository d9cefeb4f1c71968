import SqlTyping.Syntax.Tree

/-!
# Summaries of syntax trees

A fold makes a summary of a tree from those of its parts, in the order of the text. What is kept is
said for the places that matter to a summary: spans, names, parameters, calls, tables, and places
where brackets and text are not as the tree shows them. A fold may go by the names of the queries
that are in scope.
-/

namespace SqlTyping

/-- How a summary is made. By default nothing is kept. -/
structure Fold (σ β : Type) where
  empty : β
  both : β → β → β
  /-- A construct with a span. -/
  node : Span → (inside : β) → β := fun _ inside => inside
  /-- An operator and its operands. -/
  operation : (left : Expr) → Operator → (right : Expr) → Span → (inside : β) → β :=
    fun _ _ _ => node
  /-- The span of an operator, with what follows it. -/
  operator : Span → (rest : β) → β := fun _ rest => rest
  param : ParamRef → β := fun _ => empty
  column : (schema table : Option Ident) → Ident → β := fun _ _ _ => empty
  /-- The name before a star. -/
  star : Option ObjectName → β := fun _ => empty
  /-- Names that are given, with what follows them. -/
  names : List Ident → (rest : β) → β := fun _ rest => rest
  /-- Names after what they are given to. -/
  named : (before : β) → List Ident → β := fun before _ => before
  /-- A type after what has it. -/
  typed : (before : β) → DataType → β := fun before _ => before
  /-- Tables that a query locks, after the query. -/
  locked : (before : β) → List Locking → β := fun before _ => before
  /-- A call, with its arguments. -/
  callee : ObjectName → (args : β) → β := fun _ args => args
  /-- A table that is read. -/
  table : σ → ObjectName → Span → β := fun _ _ _ => empty
  /-- A table that a statement changes, with the rest of the statement. -/
  change : ObjectName → Span → (rest : β) → β := fun _ _ rest => rest
  /-- The table of an insertion, which a clause for conflicts changes. -/
  conflicting : ObjectName → Span → (clause : β) → β := change
  /-- The scope after a query of that name is defined. -/
  define : σ → Ident → σ := fun scope _ => scope
  /-- An element of an array. -/
  element : Expr → β → β := fun _ inside => inside
  /-- A statement in a `WITH` clause, or a relation in parentheses. -/
  inner : β → β := fun inside => inside
  /-- The frame of a window, with the rest of the window. -/
  frame : Option String → (inside : β) → β := fun _ inside => inside
  /-- What a conflict is about, up to where the rest starts. -/
  target : Option ConflictTarget → (stop : Nat) → (rest : β) → β := fun _ _ rest => rest
  transaction : Transaction → β := fun _ => empty

namespace Fold

variable {σ β : Type} (f : Fold σ β)

def all {α : Type} (of : α → β) : List α → β
  | [] => f.empty
  | a :: rest => f.both (of a) (all of rest)

def opt {α : Type} (of : α → β) : Option α → β
  | none => f.empty
  | some a => of a

/-- A relation with the names that its alias gives. -/
def aliased (inside : β) (asName : Option TableAlias) : β :=
  f.named inside ((asName.map fun a => a.name :: a.columns).getD [])

/-- The scope after a `WITH` clause. -/
def scope (s : σ) : Option With → σ
  | none => s
  | some withClause => withClause.ctes.foldl (fun s cte => f.define s cte.name) s

mutual

def expr (s : σ) : Expr → β
  | .literal _ span | .current _ span | .defaultValue span => f.node span f.empty
  | .column schema table name span => f.node span (f.column schema table name)
  | .param ref => f.param ref
  | .unary op operand span => f.node span (f.operator op.span (expr s operand))
  | .binary left op right span =>
    f.operation left op right span (f.both (expr s left) (f.operator op.span (expr s right)))
  | .is operand _ _ span | .nested operand span | .extract _ operand span =>
    f.node span (expr s operand)
  | .isDistinctFrom left _ right span => f.node span (f.both (expr s left) (expr s right))
  | .between operand _ _ low high span =>
    f.node span (f.both (expr s operand) (f.both (expr s low) (expr s high)))
  | .inList operand _ list span => f.node span (f.both (expr s operand) (exprs s list))
  | .inSubquery operand _ body span => f.node span (f.both (expr s operand) (query id s body))
  | .inParam operand _ ref span => f.node span (f.both (expr s operand) (f.param ref))
  | .like operand _ _ pattern escape span =>
    f.node span (f.both (expr s operand) (f.both (expr s pattern) (expr? s escape)))
  | .quantified left op _ array span =>
    f.node span (f.both (expr s left) (f.operator op.span (expr s array)))
  | .quantifiedSubquery left op _ body span =>
    f.node span (f.both (expr s left) (f.operator op.span (query id s body)))
  | .cast operand target span => f.node span (f.typed (expr s operand) target)
  | .typedString target _ span => f.node span (f.typed f.empty target)
  | .function callee => call s callee
  | .case operand whens otherwise span =>
    f.node span (f.both (expr? s operand) (f.both (tests s whens) (expr? s otherwise)))
  | .existsRow body span | .subquery body span | .arraySubquery body span =>
    f.node span (query id s body)
  | .array list span => f.node span (elements s list)
  | .row list span => f.node span (exprs s list)
  | .subscript operand lower upper _ span =>
    f.node span (f.both (expr s operand) (f.both (expr? s lower) (expr? s upper)))
  | .field operand name span => f.node span (f.named (expr s operand) [name])

def expr? (s : σ) : Option Expr → β
  | none => f.empty
  | some e => expr s e

def exprs (s : σ) : List Expr → β
  | [] => f.empty
  | e :: rest => f.both (expr s e) (exprs s rest)

def elements (s : σ) : List Expr → β
  | [] => f.empty
  | e :: rest => f.both (f.element e (expr s e)) (elements s rest)

def test (s : σ) : WhenClause → β
  | ⟨condition, result⟩ => f.both (expr s condition) (expr s result)

def tests (s : σ) : List WhenClause → β
  | [] => f.empty
  | w :: rest => f.both (test s w) (tests s rest)

def orderItem (s : σ) : OrderItem → β
  | ⟨e, _, _⟩ => expr s e

def order (s : σ) : List OrderItem → β
  | [] => f.empty
  | item :: rest => f.both (orderItem s item) (order s rest)

def window (s : σ) : WindowSpec → β
  | ⟨name, partitionBy, orderBy, text⟩ =>
    f.names name.toList (f.frame text (f.both (exprs s partitionBy) (order s orderBy)))

def window? (s : σ) : Option WindowSpec → β
  | none => f.empty
  | some spec => window s spec

def call (s : σ) : FunctionCall → β
  | ⟨name, args, _, _, orderBy, filter, spec, span⟩ =>
    f.node span <| f.both (f.callee name (exprs s args)) <| f.both (order s orderBy) <|
      f.both (expr? s filter) (window? s spec)

def values (s : σ) : Values → β
  | ⟨list, span⟩ => f.node span (rows s list)

def rows (s : σ) : List (List Expr) → β
  | [] => f.empty
  | row :: rest => f.both (exprs s row) (rows s rest)

def item (s : σ) : SelectItem → β
  | .wildcard qualifier span => f.node span (f.star qualifier)
  | .expr e asName span => f.node span (f.named (expr s e) asName.toList)

def items (s : σ) : List SelectItem → β
  | [] => f.empty
  | first :: rest => f.both (item s first) (items s rest)

def quantity (s : σ) : Distinct → β
  | .on list => exprs s list
  | .absent | .all | .distinct => f.empty

def constraint (s : σ) : JoinConstraint → β
  | .condition e => expr s e
  | .columns list => f.names list f.empty
  | .natural | .none => f.empty

def relation (s : σ) : Relation → β
  | .table name asName span => f.node span (f.aliased (f.table s name span) asName)
  | .derived _ body asName span => f.node span (f.aliased (query id s body) asName)
  | .function _ callee asName span => f.node span (f.aliased (call s callee) asName)
  | .nested inside asName span => f.node span (f.aliased (f.inner (relation s inside)) asName)
  | .join left _ right condition span =>
    f.both (relation s left) (f.node span (f.both (relation s right) (constraint s condition)))

def relations (s : σ) : List Relation → β
  | [] => f.empty
  | first :: rest => f.both (relation s first) (relations s rest)

def namedWindow (s : σ) : NamedWindow → β
  | ⟨name, spec⟩ => f.names [name] (window s spec)

def windows (s : σ) : List NamedWindow → β
  | [] => f.empty
  | first :: rest => f.both (namedWindow s first) (windows s rest)

def select (s : σ) : Select → β
  | ⟨distinctness, list, from_, selection, groupBy, having, named, span⟩ =>
    f.node span <| f.both (quantity s distinctness) <| f.both (items s list) <|
      f.both (relations s from_) <| f.both (expr? s selection) <| f.both (exprs s groupBy) <|
        f.both (expr? s having) (windows s named)

/-- The first branch stands in a scope of its own. -/
def setExpr (first s : σ) : SetExpr → β
  | .select body => select first body
  | .values body => values first body
  | .nested body => query id first body
  | .operation _ _ left right span =>
    f.node span (f.both (setExpr first s left) (setExpr s s right))

/-- The scope of the first branch is found from that of the whole body. -/
def query (first : σ → σ) (s : σ) : Query → β
  | ⟨ctes, body, orderBy, limit, offset, locking, span⟩ =>
    let inside := f.scope s ctes
    f.node span <| f.both (with? s ctes) <| f.both (setExpr (first inside) inside body) <|
      f.both (order inside orderBy) <|
        f.both (expr? inside limit) (f.locked (expr? inside offset) locking)

def withClause (s : σ) : With → β
  | ⟨recursive, list, span⟩ => f.node span (ctes recursive s list)

def with? (s : σ) : Option With → β
  | none => f.empty
  | some clause => withClause s clause

/-- A named query sees those before it. -/
def ctes (recursive : Bool) (s : σ) : List Cte → β
  | [] => f.empty
  | first :: rest => f.both (cte recursive s first) (ctes recursive (f.define s first.name) rest)

def cte (recursive : Bool) (s : σ) : Cte → β
  | ⟨name, columns, body, span⟩ =>
    f.node span (f.names (name :: columns) (cteBody recursive name s body))

/-- A recursive query that is a set operation sees itself, except in its first branch, which sees
what is visible where the query is defined. -/
def cteBody (recursive : Bool) (name : Ident) (s : σ) : CteBody → β
  | .query body =>
    query (if recursive && body.body matches .operation .. then fun _ => s else id)
      (if recursive && body.body matches .operation .. then f.define s name else s) body
  | .values body => values s body
  | .insert body => f.inner (insert s body)
  | .update body => f.inner (update s body)
  | .delete body => f.inner (delete s body)

def insertSource (s : σ) : InsertSource → β
  | .values body => values s body
  | .param ref => f.param ref
  | .query body => query id s body
  | .defaultValues => f.empty

def assignment (s : σ) : Assignment → β
  | ⟨columns, value, span⟩ => f.node span (f.names columns (expr s value))

def assignments (s : σ) : List Assignment → β
  | [] => f.empty
  | first :: rest => f.both (assignment s first) (assignments s rest)

def conflict (table : ObjectName) (s : σ) : OnConflict → β
  | .doNothing target span =>
    f.node span (f.conflicting table span (f.target target span.stop f.empty))
  | .doUpdate target list selection span =>
    f.node span <| f.conflicting table span <|
      f.target target ((list.head?.map (·.span.start)).getD span.stop) <|
        f.both (assignments s list) (expr? s selection)

def conflict? (table : ObjectName) (s : σ) : Option OnConflict → β
  | none => f.empty
  | some clause => conflict table s clause

def insert (s : σ) : Insert → β
  | ⟨ctes, table, asName, columns, source, onConflict, returning, span⟩ =>
    let inside := f.scope s ctes
    f.node span <| f.both (with? s ctes) <| f.change table table.span <|
      f.names (asName.toList ++ columns) <| f.both (insertSource inside source) <|
        f.both (conflict? table inside onConflict) (items inside returning)

def update (s : σ) : Update → β
  | ⟨ctes, table, asName, list, from_, selection, returning, span⟩ =>
    let inside := f.scope s ctes
    f.node span <| f.both (with? s ctes) <| f.change table table.span <|
      f.names asName.toList <| f.both (assignments inside list) <|
        f.both (relations inside from_) <| f.both (expr? inside selection) (items inside returning)

def delete (s : σ) : Delete → β
  | ⟨ctes, table, asName, from_, selection, returning, span⟩ =>
    let inside := f.scope s ctes
    f.node span <| f.both (with? s ctes) <| f.change table table.span <|
      f.names asName.toList <| f.both (relations inside from_) <|
        f.both (expr? inside selection) (items inside returning)

end

def statement (s : σ) : Statement → β
  | .query body => f.query id s body
  | .insert body => f.insert s body
  | .update body => f.update s body
  | .delete body => f.delete s body
  | .transaction t => f.transaction t

/-! ## Lists and options -/

/-- A walk through a list is `all`. -/
theorem eq_all {α : Type} {of : α → β} {ofList : List α → β} (hnil : ofList [] = f.empty)
    (hcons : ∀ a rest, ofList (a :: rest) = f.both (of a) (ofList rest)) : ofList = f.all of := by
  funext list
  induction list with
  | nil => exact hnil
  | cons a rest ih => rw [hcons, ih]; rfl

theorem eq_opt {α : Type} {of : α → β} {ofOption : Option α → β} (hnone : ofOption none = f.empty)
    (hsome : ∀ a, ofOption (some a) = of a) : ofOption = f.opt of := by
  funext a
  cases a with
  | none => exact hnone
  | some a => exact hsome a

variable (s : σ)

theorem expr?_eq : f.expr? s = f.opt (f.expr s) := f.eq_opt rfl fun _ => rfl

theorem window?_eq : f.window? s = f.opt (f.window s) := f.eq_opt rfl fun _ => rfl

theorem with?_eq : f.with? s = f.opt (f.withClause s) := f.eq_opt rfl fun _ => rfl

theorem conflict?_eq (table : ObjectName) : f.conflict? table s = f.opt (f.conflict table s) :=
  f.eq_opt rfl fun _ => rfl

theorem exprs_eq : f.exprs s = f.all (f.expr s) := f.eq_all rfl fun _ _ => rfl

theorem elements_eq : f.elements s = f.all fun e => f.element e (f.expr s e) :=
  f.eq_all rfl fun _ _ => rfl

theorem elements_eq_exprs (h : f.element = fun _ inside => inside) : f.elements s = f.exprs s := by
  rw [elements_eq, exprs_eq, h]

theorem tests_eq : f.tests s = f.all (f.test s) := f.eq_all rfl fun _ _ => rfl

theorem order_eq : f.order s = f.all (f.orderItem s) := f.eq_all rfl fun _ _ => rfl

theorem rows_eq : f.rows s = f.all (f.exprs s) := f.eq_all rfl fun _ _ => rfl

theorem items_eq : f.items s = f.all (f.item s) := f.eq_all rfl fun _ _ => rfl

theorem relations_eq : f.relations s = f.all (f.relation s) := f.eq_all rfl fun _ _ => rfl

theorem windows_eq : f.windows s = f.all (f.namedWindow s) := f.eq_all rfl fun _ _ => rfl

theorem assignments_eq : f.assignments s = f.all (f.assignment s) := f.eq_all rfl fun _ _ => rfl

/-! ## Folds that know no scope -/

variable (f : Fold Unit β) (recursive : Bool)

theorem ctes_eq : f.ctes recursive () = f.all (f.cte recursive ()) := f.eq_all rfl fun _ _ => rfl

end Fold

end SqlTyping
