import SqlTyping.Syntax.Tree

/-!
# Rewriting of syntax trees

A rewriting says what becomes of the leaves of a tree, of the places of its nodes and of parentheses
around expressions. The rest of the tree is built again as it was.
-/

namespace SqlTyping

/-- What changes in a tree; by default nothing does. -/
structure Rewrite where
  span : Span → Span := fun span => span
  ident : Ident → Ident := fun name => name
  ident? : Option Ident → Option Ident := fun name => name
  idents : List Ident → List Ident := fun names => names
  name : ObjectName → ObjectName := fun name => name
  name? : Option ObjectName → Option ObjectName := fun name => name
  param : ParamRef → ParamRef := fun ref => ref
  dataType : DataType → DataType := fun t => t
  operator : Operator → Operator := fun op => op
  locking : List Locking → List Locking := fun locking => locking
  tableAlias : Option TableAlias → Option TableAlias := fun asName => asName
  target : Option ConflictTarget → Option ConflictTarget := fun target => target
  /-- The frame of a window, as written. -/
  frame : Option String → Option String := fun frame => frame
  transaction : Transaction → Transaction := fun transaction => transaction
  /-- An expression in parentheses. -/
  group : (inner : Expr) → Span → Expr := .nested

variable (r : Rewrite)

mutual

def Expr.rewrite : Expr → Expr
  | .literal value span => .literal value (r.span span)
  | .column schema table name span =>
    .column (r.ident? schema) (r.ident? table) (r.ident name) (r.span span)
  | .param ref => .param (r.param ref)
  | .unary op operand span => .unary (r.operator op) operand.rewrite (r.span span)
  | .binary left op right span => .binary left.rewrite (r.operator op) right.rewrite (r.span span)
  | .is operand negated test span => .is operand.rewrite negated test (r.span span)
  | .isDistinctFrom operand negated other span =>
    .isDistinctFrom operand.rewrite negated other.rewrite (r.span span)
  | .between operand negated symmetric low high span =>
    .between operand.rewrite negated symmetric low.rewrite high.rewrite (r.span span)
  | .inList operand negated list span =>
    .inList operand.rewrite negated (Expr.rewriteList list) (r.span span)
  | .inSubquery operand negated query span =>
    .inSubquery operand.rewrite negated query.rewrite (r.span span)
  | .inParam operand negated ref span => .inParam operand.rewrite negated (r.param ref) (r.span span)
  | .like operand negated kind pattern escape span =>
    .like operand.rewrite negated kind pattern.rewrite (Expr.rewriteOption escape) (r.span span)
  | .quantified left op quantifier array span =>
    .quantified left.rewrite (r.operator op) quantifier array.rewrite (r.span span)
  | .quantifiedSubquery left op quantifier query span =>
    .quantifiedSubquery left.rewrite (r.operator op) quantifier query.rewrite (r.span span)
  | .cast operand target span => .cast operand.rewrite (r.dataType target) (r.span span)
  | .typedString target value span => .typedString (r.dataType target) value (r.span span)
  | .function call => .function call.rewrite
  | .case operand whens otherwise span =>
    .case (Expr.rewriteOption operand) (WhenClause.rewriteList whens) (Expr.rewriteOption otherwise)
      (r.span span)
  | .existsRow query span => .existsRow query.rewrite (r.span span)
  | .subquery query span => .subquery query.rewrite (r.span span)
  | .array elements span => .array (Expr.rewriteList elements) (r.span span)
  | .arraySubquery query span => .arraySubquery query.rewrite (r.span span)
  | .row elements span => .row (Expr.rewriteList elements) (r.span span)
  | .nested inner span => r.group inner.rewrite span
  | .subscript operand lower upper slice span =>
    .subscript operand.rewrite (Expr.rewriteOption lower) (Expr.rewriteOption upper) slice
      (r.span span)
  | .field operand name span => .field operand.rewrite (r.ident name) (r.span span)
  | .extract part source span => .extract part source.rewrite (r.span span)
  | .current kind span => .current kind (r.span span)
  | .defaultValue span => .defaultValue (r.span span)

def Expr.rewriteOption : Option Expr → Option Expr
  | none => none
  | some e => some e.rewrite

def Expr.rewriteList : List Expr → List Expr
  | [] => []
  | e :: rest => e.rewrite :: Expr.rewriteList rest

def WhenClause.rewrite : WhenClause → WhenClause
  | ⟨condition, result⟩ => ⟨condition.rewrite, result.rewrite⟩

def WhenClause.rewriteList : List WhenClause → List WhenClause
  | [] => []
  | w :: rest => w.rewrite :: WhenClause.rewriteList rest

def OrderItem.rewrite : OrderItem → OrderItem
  | ⟨e, descending, nullsFirst⟩ => ⟨e.rewrite, descending, nullsFirst⟩

def OrderItem.rewriteList : List OrderItem → List OrderItem
  | [] => []
  | item :: rest => item.rewrite :: OrderItem.rewriteList rest

def WindowSpec.rewrite : WindowSpec → WindowSpec
  | ⟨name, partitionBy, orderBy, frame⟩ =>
    ⟨r.ident? name, Expr.rewriteList partitionBy, OrderItem.rewriteList orderBy, r.frame frame⟩

def WindowSpec.rewriteOption : Option WindowSpec → Option WindowSpec
  | none => none
  | some spec => some spec.rewrite

def FunctionCall.rewrite : FunctionCall → FunctionCall
  | ⟨name, args, star, distinct, orderBy, filter, window, span⟩ =>
    ⟨r.name name, Expr.rewriteList args, star, distinct, OrderItem.rewriteList orderBy,
      Expr.rewriteOption filter, WindowSpec.rewriteOption window, r.span span⟩

def Values.rewrite : Values → Values
  | ⟨rows, span⟩ => ⟨Values.rewriteRows rows, r.span span⟩

def Values.rewriteRows : List (List Expr) → List (List Expr)
  | [] => []
  | row :: rest => Expr.rewriteList row :: Values.rewriteRows rest

def SelectItem.rewrite : SelectItem → SelectItem
  | .wildcard qualifier span => .wildcard (r.name? qualifier) (r.span span)
  | .expr e asName span => .expr e.rewrite (r.ident? asName) (r.span span)

def SelectItem.rewriteList : List SelectItem → List SelectItem
  | [] => []
  | item :: rest => item.rewrite :: SelectItem.rewriteList rest

def Distinct.rewrite : Distinct → Distinct
  | .absent => .absent
  | .all => .all
  | .distinct => .distinct
  | .on exprs => .on (Expr.rewriteList exprs)

def JoinConstraint.rewrite : JoinConstraint → JoinConstraint
  | .condition e => .condition e.rewrite
  | .columns names => .columns (r.idents names)
  | .natural => .natural
  | .none => .none

def Relation.rewrite : Relation → Relation
  | .table name asName span => .table (r.name name) (r.tableAlias asName) (r.span span)
  | .derived lateral query asName span =>
    .derived lateral query.rewrite (r.tableAlias asName) (r.span span)
  | .function lateral call asName span =>
    .function lateral call.rewrite (r.tableAlias asName) (r.span span)
  | .nested inner asName span => .nested inner.rewrite (r.tableAlias asName) (r.span span)
  | .join left kind right constraint span =>
    .join left.rewrite kind right.rewrite constraint.rewrite (r.span span)

def Relation.rewriteList : List Relation → List Relation
  | [] => []
  | relation :: rest => relation.rewrite :: Relation.rewriteList rest

def NamedWindow.rewrite : NamedWindow → NamedWindow
  | ⟨name, spec⟩ => ⟨r.ident name, spec.rewrite⟩

def NamedWindow.rewriteList : List NamedWindow → List NamedWindow
  | [] => []
  | window :: rest => window.rewrite :: NamedWindow.rewriteList rest

def Select.rewrite : Select → Select
  | ⟨quantity, items, relations, selection, groupBy, having, windows, span⟩ =>
    ⟨quantity.rewrite, SelectItem.rewriteList items, Relation.rewriteList relations,
      Expr.rewriteOption selection, Expr.rewriteList groupBy, Expr.rewriteOption having,
      NamedWindow.rewriteList windows, r.span span⟩

def SetExpr.rewrite : SetExpr → SetExpr
  | .select select => .select select.rewrite
  | .values values => .values values.rewrite
  | .nested query => .nested query.rewrite
  | .operation op all left right span => .operation op all left.rewrite right.rewrite (r.span span)

def Query.rewrite : Query → Query
  | ⟨withClause, body, orderBy, limit, offset, locking, span⟩ =>
    ⟨With.rewriteOption withClause, body.rewrite, OrderItem.rewriteList orderBy,
      Expr.rewriteOption limit, Expr.rewriteOption offset, r.locking locking, r.span span⟩

def With.rewrite : With → With
  | ⟨recursive, ctes, span⟩ => ⟨recursive, Cte.rewriteList ctes, r.span span⟩

def With.rewriteOption : Option With → Option With
  | none => none
  | some withClause => some withClause.rewrite

def Cte.rewrite : Cte → Cte
  | ⟨name, columns, body, span⟩ => ⟨r.ident name, r.idents columns, body.rewrite, r.span span⟩

def Cte.rewriteList : List Cte → List Cte
  | [] => []
  | cte :: rest => cte.rewrite :: Cte.rewriteList rest

def CteBody.rewrite : CteBody → CteBody
  | .query query => .query query.rewrite
  | .values values => .values values.rewrite
  | .insert insert => .insert insert.rewrite
  | .update update => .update update.rewrite
  | .delete delete => .delete delete.rewrite

def InsertSource.rewrite : InsertSource → InsertSource
  | .values values => .values values.rewrite
  | .param ref => .param (r.param ref)
  | .query query => .query query.rewrite
  | .defaultValues => .defaultValues

def Assignment.rewrite : Assignment → Assignment
  | ⟨columns, value, span⟩ => ⟨r.idents columns, value.rewrite, r.span span⟩

def Assignment.rewriteList : List Assignment → List Assignment
  | [] => []
  | assignment :: rest => assignment.rewrite :: Assignment.rewriteList rest

def OnConflict.rewrite : OnConflict → OnConflict
  | .doNothing target span => .doNothing (r.target target) (r.span span)
  | .doUpdate target assignments selection span =>
    .doUpdate (r.target target) (Assignment.rewriteList assignments) (Expr.rewriteOption selection)
      (r.span span)

def OnConflict.rewriteOption : Option OnConflict → Option OnConflict
  | none => none
  | some onConflict => some onConflict.rewrite

def Insert.rewrite : Insert → Insert
  | ⟨withClause, table, asName, columns, source, onConflict, returning, span⟩ =>
    ⟨With.rewriteOption withClause, r.name table, r.ident? asName, r.idents columns, source.rewrite,
      OnConflict.rewriteOption onConflict, SelectItem.rewriteList returning, r.span span⟩

def Update.rewrite : Update → Update
  | ⟨withClause, table, asName, assignments, relations, selection, returning, span⟩ =>
    ⟨With.rewriteOption withClause, r.name table, r.ident? asName,
      Assignment.rewriteList assignments, Relation.rewriteList relations,
      Expr.rewriteOption selection, SelectItem.rewriteList returning, r.span span⟩

def Delete.rewrite : Delete → Delete
  | ⟨withClause, table, asName, relations, selection, returning, span⟩ =>
    ⟨With.rewriteOption withClause, r.name table, r.ident? asName,
      Relation.rewriteList relations, Expr.rewriteOption selection,
      SelectItem.rewriteList returning, r.span span⟩

end

def Statement.rewrite : Statement → Statement
  | .query q => .query (q.rewrite r)
  | .insert i => .insert (i.rewrite r)
  | .update u => .update (u.rewrite r)
  | .delete d => .delete (d.rewrite r)
  | .transaction t => .transaction (r.transaction t)

/-! ## Lists and optional nodes -/

theorem rewriteList_eq_map {α : Type} {f : α → α} {g : List α → List α} (hnil : g [] = [])
    (hcons : ∀ a rest, g (a :: rest) = f a :: g rest) (as : List α) : g as = as.map f := by
  induction as with
  | nil => exact hnil
  | cons a rest ih => rw [hcons, ih, List.map_cons]

@[simp] theorem Expr.rewriteList_eq (es : List Expr) :
    Expr.rewriteList r es = es.map (Expr.rewrite r) :=
  rewriteList_eq_map rfl (fun _ _ => rfl) es

@[simp] theorem Values.rewriteRows_eq (rows : List (List Expr)) :
    Values.rewriteRows r rows = rows.map (List.map (Expr.rewrite r)) :=
  rewriteList_eq_map rfl (fun row _ => by rw [← Expr.rewriteList_eq r row]; rfl) rows

@[simp] theorem WhenClause.rewriteList_eq (whens : List WhenClause) :
    WhenClause.rewriteList r whens = whens.map (WhenClause.rewrite r) :=
  rewriteList_eq_map rfl (fun _ _ => rfl) whens

@[simp] theorem OrderItem.rewriteList_eq (items : List OrderItem) :
    OrderItem.rewriteList r items = items.map (OrderItem.rewrite r) :=
  rewriteList_eq_map rfl (fun _ _ => rfl) items

@[simp] theorem SelectItem.rewriteList_eq (items : List SelectItem) :
    SelectItem.rewriteList r items = items.map (SelectItem.rewrite r) :=
  rewriteList_eq_map rfl (fun _ _ => rfl) items

@[simp] theorem Relation.rewriteList_eq (relations : List Relation) :
    Relation.rewriteList r relations = relations.map (Relation.rewrite r) :=
  rewriteList_eq_map rfl (fun _ _ => rfl) relations

@[simp] theorem NamedWindow.rewriteList_eq (windows : List NamedWindow) :
    NamedWindow.rewriteList r windows = windows.map (NamedWindow.rewrite r) :=
  rewriteList_eq_map rfl (fun _ _ => rfl) windows

@[simp] theorem Cte.rewriteList_eq (ctes : List Cte) :
    Cte.rewriteList r ctes = ctes.map (Cte.rewrite r) :=
  rewriteList_eq_map rfl (fun _ _ => rfl) ctes

@[simp] theorem Assignment.rewriteList_eq (assignments : List Assignment) :
    Assignment.rewriteList r assignments = assignments.map (Assignment.rewrite r) :=
  rewriteList_eq_map rfl (fun _ _ => rfl) assignments

@[simp] theorem Expr.rewriteOption_eq (e : Option Expr) :
    Expr.rewriteOption r e = e.map (Expr.rewrite r) := by cases e <;> rfl

@[simp] theorem WindowSpec.rewriteOption_eq (window : Option WindowSpec) :
    WindowSpec.rewriteOption r window = window.map (WindowSpec.rewrite r) := by cases window <;> rfl

@[simp] theorem With.rewriteOption_eq (withClause : Option With) :
    With.rewriteOption r withClause = withClause.map (With.rewrite r) := by cases withClause <;> rfl

@[simp] theorem OnConflict.rewriteOption_eq (onConflict : Option OnConflict) :
    OnConflict.rewriteOption r onConflict = onConflict.map (OnConflict.rewrite r) := by
  cases onConflict <;> rfl

end SqlTyping
