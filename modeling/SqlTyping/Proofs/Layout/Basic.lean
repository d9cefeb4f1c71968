import SqlTyping.Proofs.Syntax.Fold
import SqlTyping.Syntax.Node

/-!
# Layouts of syntax trees

The layout of a tree keeps the spans of its nodes and which of them stands in which. What has no
span of its own, such as an alias or an item of `ORDER BY`, leaves its parts to the node around it.
-/

namespace SqlTyping

/-- What a node is, where that matters. -/
inductive Part where
  | plain
  /-- The name of a column after the name of its table. -/
  | columnName (name : Ident)
  | binary (left : Expr) (op : Operator) (right : Expr)

inductive Layout where
  | empty
  | both (first second : Layout)
  | node (part : Part) (span : Span) (inside : Layout)

/-- A node of a tree, and the span of the nearest node around it. -/
structure Node where
  part : Part
  span : Span
  outer : Option Span

namespace Layout

def nodes (outer : Option Span) : Layout → List Node
  | empty => []
  | both a b => a.nodes outer ++ b.nodes outer
  | node part span inside => ⟨part, span, outer⟩ :: inside.nodes (some span)

/-- A node that is no operator and no name of a column. -/
def group (span : Span) (inside : Layout) : Layout := node .plain span inside

def leaf (span : Span) : Layout := group span empty

def all {α : Type} (of : α → Layout) : List α → Layout
  | [] => empty
  | a :: rest => (of a).both (all of rest)

def opt {α : Type} (of : α → Layout) : Option α → Layout
  | none => empty
  | some a => of a

/-! ## Names -/

def ofIdent (name : Ident) : Layout := leaf name.span

def ofName (name : ObjectName) : Layout :=
  group name.span ((opt ofIdent name.schema).both (ofIdent name.name))

def ofParam (ref : ParamRef) : Layout := group ref.span (all ofIdent ref.pick)

def ofAlias (asName : TableAlias) : Layout :=
  (ofIdent asName.name).both (all ofIdent asName.columns)

/-- A column, with the table and the schema before it. -/
def ofColumn : (schema table : Option Ident) → (column : Ident) → Layout
  | schema, some table, column =>
    (opt ofIdent schema).both ((ofIdent table).both (node (.columnName column) column.span empty))
  | schema, none, column => (opt ofIdent schema).both (ofIdent column)

def ofLocking (locking : Locking) : Layout := group locking.span (all ofName locking.tables)

def ofTarget : ConflictTarget → Layout
  | .columns names => all ofIdent names
  | .constraint name => ofIdent name

def ofTransactionKind : TransactionKind → Layout
  | .begin | .commit => empty
  | .rollback savepoint => opt ofIdent savepoint
  | .savepoint name | .release name => ofIdent name

def ofTransaction (transaction : Transaction) : Layout :=
  group transaction.span (ofTransactionKind transaction.kind)

end Layout

open Layout

abbrev Fold.layout : Fold Unit Layout where
  empty := .empty
  both := .both
  node := group
  operation left op right := .node (.binary left op right)
  operator span rest := (leaf span).both rest
  param := ofParam
  column := ofColumn
  star := Layout.opt ofName
  names list rest := (Layout.all ofIdent list).both rest
  named before list := before.both (Layout.all ofIdent list)
  typed before target := before.both (leaf target.span)
  locked before list := before.both (Layout.all ofLocking list)
  callee name args := (ofName name).both args
  table _ name _ := ofName name
  change name _ rest := (ofName name).both rest
  conflicting _ _ clause := clause
  target target _ rest := (Layout.opt ofTarget target).both rest
  transaction := ofTransaction

abbrev Expr.layout : Expr → Layout := Fold.layout.expr ()

def Statement.layout : Statement → Layout := Fold.layout.statement ()

@[simp] theorem Fold.all_layout {α : Type} (of : α → Layout) : layout.all of = .all of := by
  funext list
  induction list with
  | nil => rfl
  | cons a rest ih => exact congrArg (of a).both ih

@[simp] theorem Fold.opt_layout {α : Type} (of : α → Layout) : layout.opt of = .opt of := by
  funext a
  cases a <;> rfl

end SqlTyping
