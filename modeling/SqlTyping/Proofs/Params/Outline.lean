import SqlTyping.Extraction.Basic

/-!
# Outlines of statements

An outline keeps of a syntax tree what decides where its parameters are found: the parameters
themselves, the tables that are read by name, and the queries with the names that they define. The
parts stand in the order in which the extraction of an interface comes to them, which is not that of
the text: an outline is no `Fold`. Every parameter of a tree is in its outline.
-/

namespace SqlTyping

/-- An occurrence of a parameter. -/
structure Mention where
  name : String
  span : Span
deriving DecidableEq

def ParamRef.mention (ref : ParamRef) : Mention := ⟨ref.name, ref.span⟩

inductive Outline where
  | skip
  | param (ref : ParamRef)
  /-- A name without schema in `FROM`, which may stand for a named query. -/
  | table (name : String)
  | seq (first next : Outline)
  /-- A query inside another one. -/
  | scope (body : Outline)
  /-- A query with a name in a `WITH` clause. -/
  | define (name : String) (body : Outline)
  /-- A query that may refer to itself by its name: its own `WITH` clause, the first branch of its
  set operation, and the rest. -/
  | recursive (name : String) (own first rest : Outline)
  /-- Clauses that the extraction does not come to. -/
  | unread (body : Outline)

namespace Outline

/-- All parameters. -/
def refs : Outline → List ParamRef
  | skip | table _ => []
  | param ref => [ref]
  | seq a b => a.refs ++ b.refs
  | scope body | define _ body | unread body => body.refs
  | recursive _ own first rest => own.refs ++ first.refs ++ rest.refs

/-- The parts of a query that is perhaps recursive. -/
structure Parts where
  own : Outline
  first : Outline
  rest : Outline

def Parts.whole (p : Parts) : Outline := p.own.seq (p.first.seq p.rest)

/-! ## Outlines of trees -/

mutual

def ofExpr : Expr → Outline
  | .literal .. | .column .. | .typedString .. | .current .. | .defaultValue _ => skip
  | .param ref => param ref
  | .unary _ operand _ | .is operand _ _ _ | .cast operand _ _ | .nested operand _
  | .field operand _ _ | .extract _ operand _ => ofExpr operand
  | .binary left _ right _ | .isDistinctFrom left _ right _ => (ofExpr left).seq (ofExpr right)
  | .between operand _ _ low high _ => (ofExpr operand).seq ((ofExpr low).seq (ofExpr high))
  | .inList operand _ list _ => (ofExpr operand).seq (ofExprs list)
  | .inSubquery operand _ query _ | .quantifiedSubquery operand _ _ query _ =>
    (scope (ofQuery query).whole).seq (ofExpr operand)
  | .inParam operand _ ref _ => (ofExpr operand).seq (param ref)
  | .like operand _ _ pattern escape _ =>
    (ofExpr operand).seq ((ofExpr pattern).seq (ofOption escape))
  | .quantified left _ _ array _ => (ofExpr array).seq (ofExpr left)
  | .function call => ofCall call
  | .case operand whens otherwise _ =>
    (ofOption operand).seq <| (ofConditions whens).seq <| (ofResults whens).seq (ofOption otherwise)
  | .existsRow query _ | .subquery query _ | .arraySubquery query _ => scope (ofQuery query).whole
  | .array elements _ | .row elements _ => ofExprs elements
  | .subscript operand lower upper _ _ =>
    (ofOption lower).seq ((ofOption upper).seq (ofExpr operand))

def ofOption : Option Expr → Outline
  | none => skip
  | some e => ofExpr e

def ofExprs : List Expr → Outline
  | [] => skip
  | e :: rest => (ofExpr e).seq (ofExprs rest)

def ofConditions : List WhenClause → Outline
  | [] => skip
  | w :: rest => (ofCondition w).seq (ofConditions rest)

def ofCondition : WhenClause → Outline
  | ⟨condition, _⟩ => ofExpr condition

def ofResults : List WhenClause → Outline
  | [] => skip
  | w :: rest => (ofResult w).seq (ofResults rest)

def ofResult : WhenClause → Outline
  | ⟨_, result⟩ => ofExpr result

def ofOrder : List OrderItem → Outline
  | [] => skip
  | item :: rest => (ofOrderItem item).seq (ofOrder rest)

def ofOrderItem : OrderItem → Outline
  | ⟨e, _, _⟩ => ofExpr e

def ofWindow : WindowSpec → Outline
  | ⟨_, partitionBy, orderBy, _⟩ => (ofExprs partitionBy).seq (ofOrder orderBy)

def ofOver : Option WindowSpec → Outline
  | none => skip
  | some spec => ofWindow spec

def ofWindows : List NamedWindow → Outline
  | [] => skip
  | window :: rest => (ofNamedWindow window).seq (ofWindows rest)

def ofNamedWindow : NamedWindow → Outline
  | ⟨_, spec⟩ => ofWindow spec

def ofCall : FunctionCall → Outline
  | ⟨_, args, _, _, orderBy, filter, window, _⟩ =>
    (ofOrder orderBy).seq <| (ofOption filter).seq <| (ofOver window).seq (ofExprs args)

/-- `unnest(array)` in `FROM`, of which only the array is read. -/
def ofUnnest : FunctionCall → Outline
  | ⟨_, args, _, _, orderBy, filter, window, _⟩ =>
    (ofExprs args).seq (unread ((ofOrder orderBy).seq ((ofOption filter).seq (ofOver window))))

def ofValues : Values → Outline
  | ⟨rows, _⟩ => ofRows rows

def ofRows : List (List Expr) → Outline
  | [] => skip
  | row :: rest => (ofExprs row).seq (ofRows rest)

def ofItem : SelectItem → Outline
  | .wildcard .. => skip
  | .expr e _ _ => ofExpr e

def ofItems : List SelectItem → Outline
  | [] => skip
  | item :: rest => (ofItem item).seq (ofItems rest)

def ofDistinct : Distinct → Outline
  | .on exprs => ofExprs exprs
  | .absent | .all | .distinct => skip

def ofSelect : Select → Outline
  | ⟨quantity, items, relations, selection, groupBy, having, windows, _⟩ =>
    (ofRelations relations).seq <| (ofDistinct quantity).seq <| (ofItems items).seq <|
      (ofOption selection).seq <| (ofExprs groupBy).seq <| (ofOption having).seq (ofWindows windows)

/-- The first branch of a set operation, and the others. -/
def ofSetExpr : SetExpr → Outline × Outline
  | .select select => (ofSelect select, skip)
  | .values values => (ofValues values, skip)
  | .nested query => ((ofQuery query).whole, skip)
  | .operation _ _ left right _ =>
    ((ofSetExpr left).1,
      (ofSetExpr left).2.seq (scope ((ofSetExpr right).1.seq (ofSetExpr right).2)))

def ofQuery : Query → Parts
  | ⟨withClause, body, orderBy, limit, offset, _, _⟩ => {
    own := ofWith withClause
    first := (ofSetExpr body).1
    rest := (ofSetExpr body).2.seq <| (ofOrder orderBy).seq <|
      (ofOption limit).seq (ofOption offset) }

def ofWith : Option With → Outline
  | none => skip
  | some withClause => ofWithClause withClause

def ofWithClause : With → Outline
  | ⟨isRecursive, ctes, _⟩ => ofCtes isRecursive ctes

def ofCtes (isRecursive : Bool) : List Cte → Outline
  | [] => skip
  | cte :: rest => (ofCte isRecursive cte).seq (ofCtes isRecursive rest)

def ofCte (isRecursive : Bool) : Cte → Outline
  | ⟨name, _, body, _⟩ => ofCteBody isRecursive name.value body

/-- The parameters of a named `VALUES` list belong to the query around it. -/
def ofCteBody (isRecursive : Bool) (name : String) : CteBody → Outline
  | .values values => (ofValues values).seq (define name skip)
  | .query query =>
    if isRecursive && query.body matches .operation .. then
      recursive name (ofQuery query).own (ofQuery query).first (ofQuery query).rest
    else define name (ofQuery query).whole
  | .insert insert => define name (ofInsert insert)
  | .update update => define name (ofUpdate update)
  | .delete delete => define name (ofDelete delete)

def ofRelation : Relation → Outline
  | .table name _ _ => if name.schema.isNone then table name.name.value else skip
  | .derived _ query _ _ => scope (ofQuery query).whole
  | .function _ call _ _ => if isUnnest call then ofUnnest call else ofCall call
  | .nested inner _ _ => ofRelation inner
  | .join left _ right constraint _ =>
    (ofRelation left).seq ((ofRelation right).seq (ofConstraint constraint))

def ofConstraint : JoinConstraint → Outline
  | .condition e => ofExpr e
  | .columns _ | .natural | .none => skip

def ofRelations : List Relation → Outline
  | [] => skip
  | relation :: rest => (ofRelation relation).seq (ofRelations rest)

def ofInsert : Insert → Outline
  | ⟨withClause, _, _, _, source, onConflict, returning, _⟩ =>
    (ofWith withClause).seq <| (ofInsertSource source).seq <|
      (ofOnConflict onConflict).seq (ofItems returning)

def ofInsertSource : InsertSource → Outline
  | .values values => ofValues values
  | .param ref => param ref
  | .query query => scope (ofQuery query).whole
  | .defaultValues => skip

def ofOnConflict : Option OnConflict → Outline
  | none => skip
  | some onConflict => ofConflict onConflict

def ofConflict : OnConflict → Outline
  | .doNothing .. => skip
  | .doUpdate _ assignments selection _ => (ofAssignments assignments).seq (ofOption selection)

def ofAssignments : List Assignment → Outline
  | [] => skip
  | assignment :: rest => (ofAssignment assignment).seq (ofAssignments rest)

def ofAssignment : Assignment → Outline
  | ⟨_, value, _⟩ => ofExpr value

def ofUpdate : Update → Outline
  | ⟨withClause, _, _, assignments, relations, selection, returning, _⟩ =>
    (ofWith withClause).seq <| (ofRelations relations).seq <| (ofAssignments assignments).seq <|
      (ofOption selection).seq (ofItems returning)

def ofDelete : Delete → Outline
  | ⟨withClause, _, _, relations, selection, returning, _⟩ =>
    (ofWith withClause).seq <| (ofRelations relations).seq <|
      (ofOption selection).seq (ofItems returning)

end

end Outline

def Statement.outline : Statement → Outline
  | .query q => (Outline.ofQuery q).whole
  | .insert i => Outline.ofInsert i
  | .update u => Outline.ofUpdate u
  | .delete d => Outline.ofDelete d
  | .transaction _ => .skip

end SqlTyping
