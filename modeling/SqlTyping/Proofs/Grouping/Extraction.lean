import SqlTyping.Proofs.Grouping.Ungrouped

/-!
# Parentheses around expressions do not change an interface

One lemma for each function of the extraction, over the same recursion: it does the same on the tree
without parentheses.
-/

namespace SqlTyping

open Extract

theorem forM_map_ungrouped {f : Expr × Nat → Extract Unit}
    (h : ∀ e i, f (e.rewrite .ungrouped, i) = f (e, i)) (args : List (Expr × Nat)) :
    (args.map (Prod.map (Expr.rewrite .ungrouped) id)).forM f = args.forM f := by
  induction args with
  | nil => rfl
  | cons arg rest ih =>
    obtain ⟨e, i⟩ := arg
    show (f (e.rewrite .ungrouped, i) >>= fun _ =>
      (rest.map (Prod.map (Expr.rewrite .ungrouped) id)).forM f) = (f (e, i) >>= fun _ => rest.forM f)
    rw [h, ih]

theorem isUnnest_ungrouped (call : FunctionCall) :
    isUnnest (call.rewrite .ungrouped) = isUnnest call := by
  obtain ⟨name, args, star, distinct, orderBy, filter, window, span⟩ := call
  show (name.schema.isNone && name.name.value == "unnest" &&
    (Expr.rewriteList .ungrouped args).length == 1) = _
  rw [Expr.rewriteList_eq, List.length_map]
  rfl

theorem callType_ungrouped (name : ObjectName) (args : List Expr) (types : List TypeExpr)
    (star : Bool) (span : Span) :
    callType name (Expr.rewriteList .ungrouped args) types star span =
      callType name args types star span := by
  have hliterals : (Expr.rewriteList .ungrouped args).map Expr.stringLiteral? =
      args.map Expr.stringLiteral? := by
    rw [Expr.rewriteList_eq, List.map_map]
    exact List.map_congr_left fun e _ => e.stringLiteral?_ungrouped
  have hparams : (Expr.rewriteList .ungrouped args).filterMap Expr.param? =
      args.filterMap Expr.param? := by
    rw [Expr.rewriteList_eq, List.filterMap_map]
    exact congrArg (List.filterMap · args) (funext Expr.param?_ungrouped)
  simp only [callType, hliterals, hparams]
  simp only [Expr.rewriteList_eq, List.zipIdx_map]
  rw [forM_map_ungrouped]
  intro e i
  simp only [Expr.param?_ungrouped]

theorem name_ungrouped (call : FunctionCall) : (call.rewrite .ungrouped).name = call.name := by
  cases call
  rfl

mutual

theorem inferExpr_ungrouped (e : Expr) (expected : Option TypeExpr) :
    inferExpr (e.rewrite .ungrouped) expected = inferExpr e expected := by
  cases e with
  | literal | column | param | typedString | current | defaultValue => rfl
  | unary | is | inParam | field | extract =>
    simp only [Expr.rewrite, inferExpr, inferExpr_ungrouped]
  | nested inner => exact inferExpr_ungrouped inner expected
  | binary | isDistinctFrom | between | quantified =>
    simp only [Expr.rewrite, inferExpr, inferExpr_ungrouped, Expr.param?_ungrouped]
  | cast =>
    simp only [Expr.rewrite, inferExpr, inferExpr_ungrouped, Expr.param?_ungrouped,
      Expr.isNullLiteral_ungrouped, Expr.isRow_ungrouped]
  | inList | array =>
    simp only [Expr.rewrite, inferExpr, inferExpr_ungrouped, inferOperands_ungrouped,
      Expr.param?_ungrouped]
  | inSubquery | quantifiedSubquery | existsRow | subquery | arraySubquery =>
    simp only [Expr.rewrite, inferExpr, inferExpr_ungrouped, extractQuery_ungrouped,
      Expr.param?_ungrouped]
  | like | subscript =>
    simp only [Expr.rewrite, inferExpr, inferExpr_ungrouped, inferOption_ungrouped]
  | row => simp only [Expr.rewrite, inferExpr, inferExprs_ungrouped]
  | function call => exact inferCall_ungrouped call expected
  | case operand whens otherwise =>
    cases operand <;> cases otherwise <;>
      simp only [Expr.rewrite, Expr.rewriteOption, inferExpr, inferExpr_ungrouped,
        inferTests_ungrouped, inferConditions_ungrouped, inferResults_ungrouped,
        Expr.param?_ungrouped]

theorem inferOption_ungrouped (e : Option Expr) (expected : Option TypeExpr) :
    inferOption (Expr.rewriteOption .ungrouped e) expected = inferOption e expected := by
  cases e with
  | none => rfl
  | some => simp only [Expr.rewriteOption, inferOption, inferExpr_ungrouped]

theorem inferExprs_ungrouped (es : List Expr) :
    inferExprs (Expr.rewriteList .ungrouped es) = inferExprs es := by
  cases es with
  | nil => rfl
  | cons => simp only [Expr.rewriteList, inferExprs, inferExpr_ungrouped, inferExprs_ungrouped]

theorem inferOperands_ungrouped (es : List Expr) (expected : Option TypeExpr) :
    inferOperands (Expr.rewriteList .ungrouped es) expected = inferOperands es expected := by
  cases es with
  | nil => rfl
  | cons =>
    simp only [Expr.rewriteList, inferOperands, Expr.param?_ungrouped, inferExpr_ungrouped,
      inferOperands_ungrouped]

theorem inferEach_ungrouped (es : List Expr) (expected : List TypeExpr)
    (fallback : Option TypeExpr) :
    inferEach (Expr.rewriteList .ungrouped es) expected fallback =
      inferEach es expected fallback := by
  cases es with
  | nil => rfl
  | cons => simp only [Expr.rewriteList, inferEach, inferExpr_ungrouped, inferEach_ungrouped]

theorem inferArgs_ungrouped (args : List Expr) :
    inferArgs (Expr.rewriteList .ungrouped args) = inferArgs args := by
  cases args with
  | nil => rfl
  | cons =>
    simp only [Expr.rewriteList, inferArgs, Expr.param?_ungrouped, inferExpr_ungrouped,
      inferArgs_ungrouped]

theorem inferTests_ungrouped (whens : List WhenClause) :
    inferTests (WhenClause.rewriteList .ungrouped whens) = inferTests whens := by
  cases whens with
  | nil => rfl
  | cons =>
    simp only [WhenClause.rewriteList, inferTests, inferTest_ungrouped, inferTests_ungrouped]

theorem inferTest_ungrouped (w : WhenClause) : inferTest (w.rewrite .ungrouped) = inferTest w := by
  cases w with
  | mk => simp only [WhenClause.rewrite, inferTest, inferExpr_ungrouped]

theorem inferConditions_ungrouped (whens : List WhenClause) :
    inferConditions (WhenClause.rewriteList .ungrouped whens) = inferConditions whens := by
  cases whens with
  | nil => rfl
  | cons =>
    simp only [WhenClause.rewriteList, inferConditions, inferCondition_ungrouped,
      inferConditions_ungrouped]

theorem inferCondition_ungrouped (w : WhenClause) :
    inferCondition (w.rewrite .ungrouped) = inferCondition w := by
  cases w with
  | mk =>
    simp only [WhenClause.rewrite, inferCondition, Expr.param?_ungrouped, inferExpr_ungrouped]

theorem inferResults_ungrouped (whens : List WhenClause) (expected : Option TypeExpr) :
    inferResults (WhenClause.rewriteList .ungrouped whens) expected =
      inferResults whens expected := by
  cases whens with
  | nil => rfl
  | cons =>
    simp only [WhenClause.rewriteList, inferResults, inferResult_ungrouped,
      inferResults_ungrouped]

theorem inferResult_ungrouped (w : WhenClause) (expected : Option TypeExpr) :
    inferResult (w.rewrite .ungrouped) expected = inferResult w expected := by
  cases w with
  | mk => simp only [WhenClause.rewrite, inferResult, Expr.param?_ungrouped, inferExpr_ungrouped]

theorem inferOrder_ungrouped (items : List OrderItem) :
    inferOrder (OrderItem.rewriteList .ungrouped items) = inferOrder items := by
  cases items with
  | nil => rfl
  | cons =>
    simp only [OrderItem.rewriteList, inferOrder, inferOrderItem_ungrouped, inferOrder_ungrouped]

theorem inferOrderItem_ungrouped (item : OrderItem) :
    inferOrderItem (item.rewrite .ungrouped) = inferOrderItem item := by
  cases item with
  | mk => simp only [OrderItem.rewrite, inferOrderItem, inferExpr_ungrouped]

theorem inferWindow_ungrouped (spec : WindowSpec) :
    inferWindow (spec.rewrite .ungrouped) = inferWindow spec := by
  cases spec with
  | mk => simp only [WindowSpec.rewrite, inferWindow, inferExprs_ungrouped, inferOrder_ungrouped]

theorem inferOver_ungrouped (window : Option WindowSpec) :
    inferOver (WindowSpec.rewriteOption .ungrouped window) = inferOver window := by
  cases window with
  | none => rfl
  | some spec => exact inferWindow_ungrouped spec

theorem inferWindows_ungrouped (windows : List NamedWindow) :
    inferWindows (NamedWindow.rewriteList .ungrouped windows) = inferWindows windows := by
  cases windows with
  | nil => rfl
  | cons =>
    simp only [NamedWindow.rewriteList, inferWindows, inferNamedWindow_ungrouped,
      inferWindows_ungrouped]

theorem inferNamedWindow_ungrouped (window : NamedWindow) :
    inferNamedWindow (window.rewrite .ungrouped) = inferNamedWindow window := by
  cases window with
  | mk name spec => exact inferWindow_ungrouped spec

theorem inferCall_ungrouped (call : FunctionCall) (expected : Option TypeExpr) :
    inferCall (call.rewrite .ungrouped) expected = inferCall call expected := by
  cases call with
  | mk =>
    simp only [FunctionCall.rewrite, inferCall, inferOrder_ungrouped, inferOption_ungrouped,
      inferOver_ungrouped, inferOperands_ungrouped, inferArgs_ungrouped, callType_ungrouped]

theorem inferUnnest_ungrouped (call : FunctionCall) :
    inferUnnest (call.rewrite .ungrouped) = inferUnnest call := by
  cases call with
  | mk => simp only [FunctionCall.rewrite, inferUnnest, inferExprs_ungrouped]

theorem inferValues_ungrouped (values : Values) :
    inferValues (values.rewrite .ungrouped) = inferValues values := by
  cases values with
  | mk => simp only [Values.rewrite, inferValues, inferValueRows_ungrouped]

theorem inferValueRows_ungrouped (rows : List (List Expr)) :
    inferValueRows (Values.rewriteRows .ungrouped rows) = inferValueRows rows := by
  cases rows with
  | nil => rfl
  | cons =>
    simp only [Values.rewriteRows, inferValueRows, inferOperands_ungrouped,
      inferValueRows_ungrouped]

theorem addItem_ungrouped (item : SelectItem) : addItem (item.rewrite .ungrouped) = addItem item := by
  cases item with
  | wildcard => rfl
  | expr =>
    simp only [SelectItem.rewrite, addItem, inferExpr_ungrouped, Expr.resultName_ungrouped]

theorem addItems_ungrouped (items : List SelectItem) :
    addItems (SelectItem.rewriteList .ungrouped items) = addItems items := by
  cases items with
  | nil => rfl
  | cons => simp only [SelectItem.rewriteList, addItems, addItem_ungrouped, addItems_ungrouped]

theorem inferDistinct_ungrouped (quantity : Distinct) :
    inferDistinct (quantity.rewrite .ungrouped) = inferDistinct quantity := by
  cases quantity with
  | on => simp only [Distinct.rewrite, inferDistinct, inferExprs_ungrouped]
  | absent | all | distinct => rfl

theorem extractSelect_ungrouped (select : Select) :
    extractSelect (select.rewrite .ungrouped) = extractSelect select := by
  cases select with
  | mk =>
    simp only [Select.rewrite, extractSelect, extractRelations_ungrouped, inferDistinct_ungrouped,
      addItems_ungrouped, inferOption_ungrouped, inferExprs_ungrouped, inferWindows_ungrouped]

theorem extractValues_ungrouped (values : Values) :
    extractValues (values.rewrite .ungrouped) = extractValues values := by
  cases values with
  | mk => simp only [Values.rewrite, extractValues, inferValueRows_ungrouped]

theorem extractSetExpr_ungrouped (body : SetExpr) :
    extractSetExpr (body.rewrite .ungrouped) = extractSetExpr body := by
  cases body with
  | select select => exact extractSelect_ungrouped select
  | values values => exact extractValues_ungrouped values
  | nested query => exact extractQuery_ungrouped query
  | operation => simp only [SetExpr.rewrite, extractSetExpr, extractSetExpr_ungrouped]

theorem extractFirstBranch_ungrouped (body : SetExpr) :
    extractFirstBranch (body.rewrite .ungrouped) = extractFirstBranch body := by
  cases body with
  | select select => exact extractSelect_ungrouped select
  | values values => exact extractValues_ungrouped values
  | nested query => exact extractQuery_ungrouped query
  | operation op all left right span => exact extractFirstBranch_ungrouped left

theorem extractQuery_ungrouped (query : Query) :
    extractQuery (query.rewrite .ungrouped) = extractQuery query := by
  cases query with
  | mk =>
    simp only [Query.rewrite, extractQuery, extractWith_ungrouped, extractSetExpr_ungrouped,
      inferOrder_ungrouped, inferOption_ungrouped]

theorem extractFirst_ungrouped (query : Query) :
    extractFirst (query.rewrite .ungrouped) = extractFirst query := by
  cases query with
  | mk withClause body orderBy limit offset locking span => exact extractFirstBranch_ungrouped body

theorem extractWith_ungrouped (withClause : Option With) :
    extractWith (With.rewriteOption .ungrouped withClause) = extractWith withClause := by
  cases withClause with
  | none => rfl
  | some withClause => exact extractWithClause_ungrouped withClause

theorem extractWithClause_ungrouped (withClause : With) :
    extractWithClause (withClause.rewrite .ungrouped) = extractWithClause withClause := by
  cases withClause with
  | mk recursive ctes span => exact extractCtes_ungrouped recursive ctes

theorem extractCtes_ungrouped (recursive : Bool) (ctes : List Cte) :
    extractCtes recursive (Cte.rewriteList .ungrouped ctes) = extractCtes recursive ctes := by
  cases ctes with
  | nil => rfl
  | cons => simp only [Cte.rewriteList, extractCtes, extractCte_ungrouped, extractCtes_ungrouped]

theorem extractCte_ungrouped (recursive : Bool) (cte : Cte) :
    extractCte recursive (cte.rewrite .ungrouped) = extractCte recursive cte := by
  cases cte with
  | mk name columns body span => exact extractCteBody_ungrouped recursive name.value columns body

theorem extractCteBody_ungrouped (recursive : Bool) (name : String) (columns : List Ident)
    (body : CteBody) : extractCteBody recursive name columns (body.rewrite .ungrouped) =
      extractCteBody recursive name columns body := by
  cases body with
  | values => simp only [CteBody.rewrite, extractCteBody, inferValues_ungrouped]
  | query query =>
    simp only [CteBody.rewrite, extractCteBody, extractQuery_ungrouped, extractFirst_ungrouped]
    -- only the form of the body is left, which parentheses in it do not change
    cases query with
    | mk withClause body => cases body <;> rfl
  | insert => simp only [CteBody.rewrite, extractCteBody, extractInsert_ungrouped]
  | update => simp only [CteBody.rewrite, extractCteBody, extractUpdate_ungrouped]
  | delete => simp only [CteBody.rewrite, extractCteBody, extractDelete_ungrouped]

theorem extractRelation_ungrouped (relation : Relation) (isResult : Bool) :
    extractRelation (relation.rewrite .ungrouped) isResult = extractRelation relation isResult := by
  cases relation with
  | table => rfl
  | derived => simp only [Relation.rewrite, extractRelation, extractQuery_ungrouped]
  | function =>
    simp only [Relation.rewrite, extractRelation, inferUnnest_ungrouped, inferCall_ungrouped,
      isUnnest_ungrouped, name_ungrouped]
  | nested inner => exact extractRelation_ungrouped inner isResult
  | join =>
    simp only [Relation.rewrite, extractRelation, extractRelation_ungrouped,
      inferConstraint_ungrouped]

theorem inferConstraint_ungrouped (constraint : JoinConstraint) :
    inferConstraint (constraint.rewrite .ungrouped) = inferConstraint constraint := by
  cases constraint with
  | condition => simp only [JoinConstraint.rewrite, inferConstraint, inferExpr_ungrouped]
  | columns | natural | none => rfl

theorem extractRelations_ungrouped (relations : List Relation) (isResult : Bool) :
    extractRelations (Relation.rewriteList .ungrouped relations) isResult =
      extractRelations relations isResult := by
  cases relations with
  | nil => rfl
  | cons =>
    simp only [Relation.rewriteList, extractRelations, extractRelation_ungrouped,
      extractRelations_ungrouped]

theorem extractInsert_ungrouped (insert : Insert) :
    extractInsert (insert.rewrite .ungrouped) = extractInsert insert := by
  cases insert with
  | mk =>
    simp only [Insert.rewrite, extractInsert, extractWith_ungrouped,
      extractInsertSource_ungrouped, extractOnConflict_ungrouped, addItems_ungrouped]

theorem extractInsertSource_ungrouped (target : String) (columns : List Ident)
    (source : InsertSource) : extractInsertSource target columns (source.rewrite .ungrouped) =
      extractInsertSource target columns source := by
  cases source with
  | values values => exact inferInserted_ungrouped _ values
  | query => simp only [InsertSource.rewrite, extractInsertSource, extractQuery_ungrouped]
  | param | defaultValues => rfl

theorem inferInserted_ungrouped (columns : List TypeExpr) (values : Values) :
    inferInserted columns (values.rewrite .ungrouped) = inferInserted columns values := by
  cases values with
  | mk rows span => exact inferInsertedRows_ungrouped columns rows

theorem inferInsertedRows_ungrouped (columns : List TypeExpr) (rows : List (List Expr)) :
    inferInsertedRows columns (Values.rewriteRows .ungrouped rows) =
      inferInsertedRows columns rows := by
  cases rows with
  | nil => rfl
  | cons =>
    simp only [Values.rewriteRows, inferInsertedRows, inferEach_ungrouped,
      inferInsertedRows_ungrouped]

theorem extractOnConflict_ungrouped (target : String) (table : ObjectName)
    (onConflict : Option OnConflict) :
    extractOnConflict target table (OnConflict.rewriteOption .ungrouped onConflict) =
      extractOnConflict target table onConflict := by
  cases onConflict with
  | none => rfl
  | some onConflict => exact extractConflict_ungrouped target table onConflict

theorem extractConflict_ungrouped (target : String) (table : ObjectName) (onConflict : OnConflict) :
    extractConflict target table (onConflict.rewrite .ungrouped) =
      extractConflict target table onConflict := by
  cases onConflict with
  | doNothing => rfl
  | doUpdate =>
    simp only [OnConflict.rewrite, extractConflict, extractAssignments_ungrouped,
      inferOption_ungrouped]

theorem extractAssignments_ungrouped (target : String) (assignments : List Assignment) :
    extractAssignments target (Assignment.rewriteList .ungrouped assignments) =
      extractAssignments target assignments := by
  cases assignments with
  | nil => rfl
  | cons =>
    simp only [Assignment.rewriteList, extractAssignments, extractAssignment_ungrouped,
      extractAssignments_ungrouped]

theorem extractAssignment_ungrouped (target : String) (assignment : Assignment) :
    extractAssignment target (assignment.rewrite .ungrouped) =
      extractAssignment target assignment := by
  cases assignment with
  | mk =>
    simp only [Assignment.rewrite, extractAssignment, inferExpr_ungrouped, inferTuple_ungrouped,
      Expr.isTuple_ungrouped]

theorem inferTuple_ungrouped (e : Expr) (columns : List TypeExpr) :
    inferTuple (e.rewrite .ungrouped) columns = inferTuple e columns := by
  cases e with
  | nested inner => exact inferTuple_ungrouped inner columns
  | row elements => exact inferEach_ungrouped elements columns none
  | subquery => simp only [Expr.rewrite, inferTuple, extractQuery_ungrouped]
  | _ => rfl

theorem extractUpdate_ungrouped (update : Update) :
    extractUpdate (update.rewrite .ungrouped) = extractUpdate update := by
  cases update with
  | mk =>
    simp only [Update.rewrite, extractUpdate, extractWith_ungrouped, extractRelations_ungrouped,
      extractAssignments_ungrouped, inferOption_ungrouped, addItems_ungrouped]

theorem extractDelete_ungrouped (delete : Delete) :
    extractDelete (delete.rewrite .ungrouped) = extractDelete delete := by
  cases delete with
  | mk =>
    simp only [Delete.rewrite, extractDelete, extractWith_ungrouped, extractRelations_ungrouped,
      inferOption_ungrouped, addItems_ungrouped]

end

theorem extractStatement_ungrouped (statement : Statement) :
    extractStatement (statement.rewrite .ungrouped) = extractStatement statement := by
  cases statement with
  | query query => exact extractQuery_ungrouped query
  | insert insert => exact extractInsert_ungrouped insert
  | update update => exact extractUpdate_ungrouped update
  | delete delete => exact extractDelete_ungrouped delete
  | transaction transaction => rfl

/-- Without its parentheses a statement has the same interface, wherever it stands. -/
theorem Statement.interface_ungrouped (statement : Statement) (outer : List Source) :
    (statement.rewrite .ungrouped).interface outer = statement.interface outer := by
  rw [Statement.interface, extractStatement_ungrouped, Statement.interface]

end SqlTyping
