import SqlTyping.Proofs.Params.Outline
import SqlTyping.Proofs.Syntax.Fold

/-!
# Parameters that occur in a tree

All parameters anywhere in a syntax tree, in the order of the text. The outline of a statement holds
the same parameters, each as often as the statement does.
-/

namespace SqlTyping

/-! ## Occurrences -/

abbrev Fold.params : Fold Unit (List ParamRef) where
  empty := []
  both a b := a ++ b
  param ref := [ref]

abbrev Expr.params : Expr → List ParamRef := Fold.params.expr ()

abbrev Query.params : Query → List ParamRef := Fold.params.query id ()

def Statement.params : Statement → List ParamRef := Fold.params.statement ()

namespace Fold

variable {α : Type} (of : α → List ParamRef)

@[simp] theorem all_params : params.all of = (·.flatMap of) := by
  funext list
  induction list with
  | nil => rfl
  | cons a rest ih => exact congrArg (of a ++ ·) ih

@[simp] theorem opt_params : params.opt of = (·.toList.flatMap of) := by
  funext a
  cases a with
  | none => rfl
  | some a => exact (List.flatMap_singleton of a).symm

end Fold

/-! ## Outlines -/

open List

namespace Outline

open Fold (params)

/-- What stands last in the outline stands first in the text. -/
theorem perm_last_first {a b xs ys : List ParamRef} (ha : a ~ xs) (hb : b ~ ys) :
    a ++ b ~ ys ++ xs :=
  (ha.append hb).trans perm_append_comm

/-- What stands first in the outline stands second in the text. -/
theorem perm_first_second {a b c xs ys zs : List ParamRef} (ha : a ~ xs) (hb : b ~ ys)
    (hc : c ~ zs) : a ++ (b ++ c) ~ ys ++ (xs ++ zs) :=
  (ha.append (hb.append hc)).trans (perm_append_comm_assoc _ _ _)

theorem refs_ite {c : Prop} [Decidable c] {a b : Outline} {xs : List ParamRef}
    (ha : a.refs ~ xs) (hb : b.refs ~ xs) : (if c then a else b).refs ~ xs := by
  split
  · exact ha
  · exact hb

mutual

theorem refs_ofExpr (e : Expr) : (ofExpr e).refs ~ e.params := by
  match e with
  | .literal .. | .column .. | .typedString .. | .current .. | .defaultValue _ | .param _ =>
    exact .refl _
  | .unary _ operand _ | .is operand _ _ _ | .cast operand _ _ | .nested operand _
  | .field operand _ _ | .extract _ operand _ => exact refs_ofExpr operand
  | .binary left _ right _ | .isDistinctFrom left _ right _ =>
    exact (refs_ofExpr left).append (refs_ofExpr right)
  | .quantified left _ _ array _ =>
    exact perm_last_first (refs_ofExpr array) (refs_ofExpr left)
  | .between operand _ _ low high _ =>
    exact (refs_ofExpr operand).append ((refs_ofExpr low).append (refs_ofExpr high))
  | .inList operand _ list _ => exact (refs_ofExpr operand).append (refs_ofExprs list)
  | .inSubquery operand _ query _ | .quantifiedSubquery operand _ _ query _ =>
    exact perm_last_first (refs_ofQuery query) (refs_ofExpr operand)
  | .inParam operand _ _ _ => exact (refs_ofExpr operand).append (.refl _)
  | .like operand _ _ pattern escape _ =>
    exact (refs_ofExpr operand).append ((refs_ofExpr pattern).append (refs_ofOption escape))
  | .function call => exact refs_ofCall call
  | .case operand whens otherwise _ =>
    refine (refs_ofOption operand).append ?_
    refine (List.Perm.of_eq (append_assoc ..).symm).trans ?_
    exact (refs_ofWhens whens).append (refs_ofOption otherwise)
  | .existsRow query _ | .subquery query _ | .arraySubquery query _ =>
    exact refs_ofQuery query
  | .array elements _ =>
    have helements := refs_ofExprs elements
    rwa [← params.elements_eq_exprs () rfl] at helements
  | .row elements _ => exact refs_ofExprs elements
  | .subscript operand lower upper _ _ =>
    refine (List.Perm.of_eq (append_assoc ..).symm).trans ?_
    exact perm_last_first ((refs_ofOption lower).append (refs_ofOption upper)) (refs_ofExpr operand)

theorem refs_ofOption (e : Option Expr) : (ofOption e).refs ~ params.expr? () e := by
  match e with
  | none => exact .refl _
  | some e => exact refs_ofExpr e

theorem refs_ofExprs (es : List Expr) : (ofExprs es).refs ~ params.exprs () es := by
  match es with
  | [] => exact .refl _
  | e :: rest => exact (refs_ofExpr e).append (refs_ofExprs rest)

theorem refs_ofWhen (w : WhenClause) :
    ((ofCondition w).refs ++ (ofResult w).refs) ~ params.test () w := by
  match w with
  | ⟨condition, result⟩ => exact (refs_ofExpr condition).append (refs_ofExpr result)

/-- All conditions stand before all results in the outline. -/
theorem refs_ofWhens (whens : List WhenClause) :
    ((ofConditions whens).refs ++ (ofResults whens).refs) ~ params.tests () whens := by
  match whens with
  | [] => exact .refl _
  | w :: rest =>
    calc (ofCondition w).refs ++ (ofConditions rest).refs ++
          ((ofResult w).refs ++ (ofResults rest).refs)
      _ = (ofCondition w).refs ++ ((ofConditions rest).refs ++
          ((ofResult w).refs ++ (ofResults rest).refs)) := append_assoc ..
      _ ~ (ofCondition w).refs ++ ((ofResult w).refs ++
          ((ofConditions rest).refs ++ (ofResults rest).refs)) :=
        (perm_append_comm_assoc _ _ _).append_left _
      _ = (ofCondition w).refs ++ (ofResult w).refs ++
          ((ofConditions rest).refs ++ (ofResults rest).refs) := (append_assoc ..).symm
      _ ~ params.test () w ++ params.tests () rest := (refs_ofWhen w).append (refs_ofWhens rest)

theorem refs_ofOrderItem (item : OrderItem) : (ofOrderItem item).refs ~ params.orderItem () item := by
  match item with
  | ⟨e, _, _⟩ => exact refs_ofExpr e

theorem refs_ofOrder (items : List OrderItem) : (ofOrder items).refs ~ params.order () items := by
  match items with
  | [] => exact .refl _
  | item :: rest => exact (refs_ofOrderItem item).append (refs_ofOrder rest)

theorem refs_ofWindow (spec : WindowSpec) : (ofWindow spec).refs ~ params.window () spec := by
  match spec with
  | ⟨_, partitionBy, orderBy, _⟩ =>
    exact (refs_ofExprs partitionBy).append (refs_ofOrder orderBy)

theorem refs_ofOver (window : Option WindowSpec) :
    (ofOver window).refs ~ params.window? () window := by
  match window with
  | none => exact .refl _
  | some spec => exact refs_ofWindow spec

theorem refs_ofUnnest (call : FunctionCall) : (ofUnnest call).refs ~ params.call () call := by
  match call with
  | ⟨_, args, _, _, orderBy, filter, window, _⟩ =>
    exact (refs_ofExprs args).append ((refs_ofOrder orderBy).append
      ((refs_ofOption filter).append (refs_ofOver window)))

theorem refs_ofCall (call : FunctionCall) : (ofCall call).refs ~ params.call () call := by
  match call with
  | ⟨_, args, _, _, orderBy, filter, window, _⟩ =>
    have hclauses := (refs_ofOrder orderBy).append
      ((refs_ofOption filter).append (refs_ofOver window))
    have hall := perm_last_first hclauses (refs_ofExprs args)
    rw [append_assoc, append_assoc] at hall
    exact hall

theorem refs_ofValues (values : Values) : (ofValues values).refs ~ params.values () values := by
  match values with
  | ⟨rows, _⟩ => exact refs_ofRows rows

theorem refs_ofRows (rows : List (List Expr)) : (ofRows rows).refs ~ params.rows () rows := by
  match rows with
  | [] => exact .refl _
  | row :: rest => exact (refs_ofExprs row).append (refs_ofRows rest)

theorem refs_ofItem (item : SelectItem) : (ofItem item).refs ~ params.item () item := by
  match item with
  | .wildcard .. => exact .refl _
  | .expr e _ _ => exact refs_ofExpr e

theorem refs_ofItems (items : List SelectItem) : (ofItems items).refs ~ params.items () items := by
  match items with
  | [] => exact .refl _
  | item :: rest => exact (refs_ofItem item).append (refs_ofItems rest)

theorem refs_ofDistinct (quantity : Distinct) :
    (ofDistinct quantity).refs ~ params.quantity () quantity := by
  match quantity with
  | .on exprs => exact refs_ofExprs exprs
  | .absent | .all | .distinct => exact .refl _

theorem refs_ofConstraint (constraint : JoinConstraint) :
    (ofConstraint constraint).refs ~ params.constraint () constraint := by
  match constraint with
  | .condition e => exact refs_ofExpr e
  | .columns _ | .natural | .none => exact .refl _

theorem refs_ofRelation (relation : Relation) :
    (ofRelation relation).refs ~ params.relation () relation := by
  match relation with
  | .table .. => exact refs_ite (.refl _) (.refl _)
  | .derived _ query _ _ => exact refs_ofQuery query
  | .function _ call _ _ => exact refs_ite (refs_ofUnnest call) (refs_ofCall call)
  | .nested inner _ _ => exact refs_ofRelation inner
  | .join left _ right constraint _ =>
    exact (refs_ofRelation left).append
      ((refs_ofRelation right).append (refs_ofConstraint constraint))

theorem refs_ofRelations (relations : List Relation) :
    (ofRelations relations).refs ~ params.relations () relations := by
  match relations with
  | [] => exact .refl _
  | relation :: rest => exact (refs_ofRelation relation).append (refs_ofRelations rest)

theorem refs_ofNamedWindow (window : NamedWindow) :
    (ofNamedWindow window).refs ~ params.namedWindow () window := by
  match window with
  | ⟨_, spec⟩ => exact refs_ofWindow spec

theorem refs_ofWindows (windows : List NamedWindow) :
    (ofWindows windows).refs ~ params.windows () windows := by
  match windows with
  | [] => exact .refl _
  | window :: rest => exact (refs_ofNamedWindow window).append (refs_ofWindows rest)

theorem refs_ofSelect (select : Select) : (ofSelect select).refs ~ params.select () select := by
  match select with
  | ⟨quantity, items, relations, selection, groupBy, having, windows, _⟩ =>
    have hclauses := (refs_ofOption selection).append ((refs_ofExprs groupBy).append
      ((refs_ofOption having).append (refs_ofWindows windows)))
    refine (perm_append_comm_assoc _ _ _).trans ((refs_ofDistinct quantity).append ?_)
    exact perm_first_second (refs_ofRelations relations) (refs_ofItems items) hclauses

theorem refs_ofSetExpr (body : SetExpr) :
    ((ofSetExpr body).1.refs ++ (ofSetExpr body).2.refs) ~ params.setExpr () () body := by
  match body with
  | .select select => exact (List.Perm.of_eq (append_nil _)).trans (refs_ofSelect select)
  | .values values => exact (List.Perm.of_eq (append_nil _)).trans (refs_ofValues values)
  | .nested query => exact (List.Perm.of_eq (append_nil _)).trans (refs_ofQuery query)
  | .operation _ _ left right _ =>
    refine (List.Perm.of_eq (append_assoc ..).symm).trans ?_
    exact (refs_ofSetExpr left).append (refs_ofSetExpr right)

theorem refs_ofQuery (query : Query) : (ofQuery query).whole.refs ~ query.params := by
  match query with
  | ⟨withClause, body, orderBy, limit, offset, _, _⟩ =>
    refine (refs_ofWith withClause).append ?_
    refine (List.Perm.of_eq (append_assoc ..).symm).trans ?_
    exact (refs_ofSetExpr body).append ((refs_ofOrder orderBy).append
      ((refs_ofOption limit).append (refs_ofOption offset)))

theorem refs_ofWithClause (withClause : With) :
    (ofWithClause withClause).refs ~ params.withClause () withClause := by
  match withClause with
  | ⟨isRecursive, ctes, _⟩ => exact refs_ofCtes isRecursive ctes

theorem refs_ofWith (withClause : Option With) :
    (ofWith withClause).refs ~ params.with? () withClause := by
  match withClause with
  | none => exact .refl _
  | some withClause => exact refs_ofWithClause withClause

theorem refs_ofCtes (isRecursive : Bool) (ctes : List Cte) :
    (ofCtes isRecursive ctes).refs ~ params.ctes isRecursive () ctes := by
  match ctes with
  | [] => exact .refl _
  | cte :: rest =>
    exact (refs_ofCte isRecursive cte).append (refs_ofCtes isRecursive rest)

theorem refs_ofCte (isRecursive : Bool) (cte : Cte) :
    (ofCte isRecursive cte).refs ~ params.cte isRecursive () cte := by
  match cte with
  | ⟨name, _, body, _⟩ => exact refs_ofCteBody isRecursive name body

theorem refs_ofCteBody (isRecursive : Bool) (name : Ident) (body : CteBody) :
    (ofCteBody isRecursive name.value body).refs ~ params.cteBody isRecursive name () body := by
  match body with
  | .values values => exact (List.Perm.of_eq (append_nil _)).trans (refs_ofValues values)
  | .query query =>
    have hquery := refs_ofQuery query
    exact refs_ite ((List.Perm.of_eq (append_assoc ..)).trans hquery) hquery
  | .insert insert => exact refs_ofInsert insert
  | .update update => exact refs_ofUpdate update
  | .delete delete => exact refs_ofDelete delete

theorem refs_ofInsertSource (source : InsertSource) :
    (ofInsertSource source).refs ~ params.insertSource () source := by
  match source with
  | .values values => exact refs_ofValues values
  | .query query => exact refs_ofQuery query
  | .param _ | .defaultValues => exact .refl _

theorem refs_ofAssignment (assignment : Assignment) :
    (ofAssignment assignment).refs ~ params.assignment () assignment := by
  match assignment with
  | ⟨_, value, _⟩ => exact refs_ofExpr value

theorem refs_ofAssignments (assignments : List Assignment) :
    (ofAssignments assignments).refs ~ params.assignments () assignments := by
  match assignments with
  | [] => exact .refl _
  | assignment :: rest =>
    exact (refs_ofAssignment assignment).append (refs_ofAssignments rest)

theorem refs_ofConflict (table : ObjectName) (onConflict : OnConflict) :
    (ofConflict onConflict).refs ~ params.conflict table () onConflict := by
  match onConflict with
  | .doNothing .. => exact .refl _
  | .doUpdate _ assignments selection _ =>
    exact (refs_ofAssignments assignments).append (refs_ofOption selection)

theorem refs_ofOnConflict (table : ObjectName) (onConflict : Option OnConflict) :
    (ofOnConflict onConflict).refs ~ params.conflict? table () onConflict := by
  match onConflict with
  | none => exact .refl _
  | some onConflict => exact refs_ofConflict table onConflict

theorem refs_ofInsert (insert : Insert) : (ofInsert insert).refs ~ params.insert () insert := by
  match insert with
  | ⟨withClause, into, _, _, source, onConflict, returning, _⟩ =>
    exact (refs_ofWith withClause).append ((refs_ofInsertSource source).append
      ((refs_ofOnConflict into onConflict).append (refs_ofItems returning)))

theorem refs_ofUpdate (update : Update) : (ofUpdate update).refs ~ params.update () update := by
  match update with
  | ⟨withClause, _, _, assignments, relations, selection, returning, _⟩ =>
    exact (refs_ofWith withClause).append <|
      perm_first_second (refs_ofRelations relations) (refs_ofAssignments assignments)
        ((refs_ofOption selection).append (refs_ofItems returning))

theorem refs_ofDelete (delete : Delete) : (ofDelete delete).refs ~ params.delete () delete := by
  match delete with
  | ⟨withClause, _, _, relations, selection, returning, _⟩ =>
    exact (refs_ofWith withClause).append ((refs_ofRelations relations).append
      ((refs_ofOption selection).append (refs_ofItems returning)))

end

end Outline

/-- The outline of a statement holds the parameters of the statement, in another order. -/
theorem Statement.refs_outline (st : Statement) : st.outline.refs ~ st.params := by
  cases st with
  | query q => exact Outline.refs_ofQuery q
  | insert i => exact Outline.refs_ofInsert i
  | update u => exact Outline.refs_ofUpdate u
  | delete d => exact Outline.refs_ofDelete d
  | transaction t => exact .refl _

end SqlTyping
