import SqlTyping.Span.Codec
import SqlTyping.Syntax.Tree

/-!
# Syntax trees in JSON

A node is an object of its parts. Where a node has several forms, it is an object with one member
that is called for the form, or the name of the form alone if that has no parts.
-/

namespace SqlTyping

/-! ## Leaves -/

/-- A form with its content. -/
def formJson (name : String) (content : Json) : Json := .object [⟨name, content⟩]

/-- A form with its parts. -/
def nodeJson (name : String) (parts : List (Field Json)) : Json := formJson name (.object parts)

def Ident.toJson (i : Ident) : Json :=
  .object [⟨"value", .string i.value⟩, ⟨"quoted", .bool i.quoted⟩, ⟨"span", i.span.toJson⟩]

def Ident.listToJson (names : List Ident) : Json := .ofList Ident.toJson names

def Ident.optionToJson (name : Option Ident) : Json := .ofOption Ident.toJson name

def ObjectName.toJson (n : ObjectName) : Json :=
  .object [⟨"schema", Ident.optionToJson n.schema⟩, ⟨"name", n.name.toJson⟩,
    ⟨"span", n.span.toJson⟩]

def ParamRef.toJson (p : ParamRef) : Json :=
  .object [⟨"name", .string p.name⟩, ⟨"required", .bool p.required⟩, ⟨"spread", .bool p.spread⟩,
    ⟨"pick", Ident.listToJson p.pick⟩, ⟨"span", p.span.toJson⟩]

def DataType.toJson (t : DataType) : Json :=
  .object [⟨"schema", .ofOption .string t.schema⟩, ⟨"name", .string t.name⟩,
    ⟨"modifiers", .ofList .string t.modifiers⟩, ⟨"array_dims", .nat t.dimensions⟩,
    ⟨"span", t.span.toJson⟩]

def Literal.toJson : Literal → Json
  | .number text => formJson "Number" (.string text)
  | .string value => formJson "String" (.string value)
  | .boolean value => formJson "Boolean" (.bool value)
  | .null => .string "Null"

def Operator.toJson (o : Operator) : Json :=
  .object [⟨"op", .string o.symbol⟩, ⟨"span", o.span.toJson⟩]

def TruthTest.toJson : TruthTest → Json
  | .null => .string "Null"
  | .true => .string "True"
  | .false => .string "False"
  | .unknown => .string "Unknown"

def LikeKind.toJson : LikeKind → Json
  | .like => .string "Like"
  | .ilike => .string "ILike"
  | .similarTo => .string "SimilarTo"

def Quantifier.toJson : Quantifier → Json
  | .any => .string "Any"
  | .all => .string "All"

def CurrentKind.toJson : CurrentKind → Json
  | .date => .string "Date"
  | .time => .string "Time"
  | .timestamp => .string "Timestamp"
  | .localTime => .string "LocalTime"
  | .localTimestamp => .string "LocalTimestamp"
  | .user => .string "User"

def SetOperator.toJson : SetOperator → Json
  | .union => .string "Union"
  | .intersect => .string "Intersect"
  | .except => .string "Except"

def JoinKind.toJson : JoinKind → Json
  | .inner => .string "Inner"
  | .left => .string "Left"
  | .right => .string "Right"
  | .full => .string "Full"
  | .cross => .string "Cross"

def Locking.toJson (l : Locking) : Json :=
  .object [⟨"strength", .string l.strength⟩, ⟨"of", .ofList ObjectName.toJson l.tables⟩,
    ⟨"span", l.span.toJson⟩]

def TableAlias.toJson (a : TableAlias) : Json :=
  .object [⟨"name", a.name.toJson⟩, ⟨"columns", Ident.listToJson a.columns⟩]

def ConflictTarget.toJson : ConflictTarget → Json
  | .columns names => formJson "Columns" (Ident.listToJson names)
  | .constraint name => formJson "Constraint" name.toJson

def TransactionKind.toJson : TransactionKind → Json
  | .begin => .string "Begin"
  | .commit => .string "Commit"
  | .rollback target => nodeJson "Rollback" [⟨"savepoint", Ident.optionToJson target⟩]
  | .savepoint name => formJson "Savepoint" name.toJson
  | .release name => formJson "Release" name.toJson

/-- A clause of `SELECT`, which is left out if it is empty. -/
def clauseJson (name : String) (items : List Json) : List Json :=
  if items.isEmpty then [] else [formJson name (.array items)]

/-- A clause of `SELECT` with one expression. -/
def clauseOfJson (name : String) : Json → List Json
  | .null => []
  | json => [formJson name json]

/-- A relation and the joins to it. -/
def chainJson (chain : Json × List Json) : Json :=
  .object [⟨"relation", chain.1⟩, ⟨"joins", .array chain.2⟩]

/-! ## Nodes -/

mutual

def Expr.toJson : Expr → Json
  | .literal value span => nodeJson "Literal" [⟨"value", value.toJson⟩, ⟨"span", span.toJson⟩]
  | .column schema table name span =>
    nodeJson "Column" [⟨"schema", Ident.optionToJson schema⟩, ⟨"table", Ident.optionToJson table⟩,
      ⟨"column", name.toJson⟩, ⟨"span", span.toJson⟩]
  | .param ref => formJson "Param" ref.toJson
  | .unary op e span =>
    nodeJson "Unary" [⟨"op", op.toJson⟩, ⟨"expr", e.toJson⟩, ⟨"span", span.toJson⟩]
  | .binary left op right span =>
    nodeJson "Binary" [⟨"left", left.toJson⟩, ⟨"op", op.toJson⟩, ⟨"right", right.toJson⟩,
      ⟨"span", span.toJson⟩]
  | .is e negated test span =>
    nodeJson "Is" [⟨"expr", e.toJson⟩, ⟨"negated", .bool negated⟩, ⟨"test", test.toJson⟩,
      ⟨"span", span.toJson⟩]
  | .isDistinctFrom e negated other span =>
    nodeJson "Is" [⟨"expr", e.toJson⟩, ⟨"negated", .bool negated⟩,
      ⟨"test", formJson "DistinctFrom" other.toJson⟩, ⟨"span", span.toJson⟩]
  | .between e negated symmetric low high span =>
    nodeJson "Between" [⟨"expr", e.toJson⟩, ⟨"negated", .bool negated⟩,
      ⟨"symmetric", .bool symmetric⟩, ⟨"low", low.toJson⟩, ⟨"high", high.toJson⟩,
      ⟨"span", span.toJson⟩]
  | .inList e negated list span =>
    nodeJson "InList" [⟨"expr", e.toJson⟩, ⟨"negated", .bool negated⟩,
      ⟨"list", .array (Expr.listToJson list)⟩, ⟨"span", span.toJson⟩]
  | .inSubquery e negated q span =>
    nodeJson "InSubquery" [⟨"expr", e.toJson⟩, ⟨"negated", .bool negated⟩, ⟨"subquery", q.toJson⟩,
      ⟨"span", span.toJson⟩]
  | .inParam e negated ref span =>
    nodeJson "InParam" [⟨"expr", e.toJson⟩, ⟨"negated", .bool negated⟩, ⟨"param", ref.toJson⟩,
      ⟨"span", span.toJson⟩]
  | .like e negated kind pattern escape span =>
    nodeJson "Like" [⟨"expr", e.toJson⟩, ⟨"negated", .bool negated⟩, ⟨"kind", kind.toJson⟩,
      ⟨"pattern", pattern.toJson⟩, ⟨"escape", Expr.optionToJson escape⟩, ⟨"span", span.toJson⟩]
  | .quantified left op quantifier items span =>
    nodeJson "Quantified" [⟨"left", left.toJson⟩, ⟨"op", op.toJson⟩,
      ⟨"quantifier", quantifier.toJson⟩, ⟨"right", formJson "Expr" items.toJson⟩,
      ⟨"span", span.toJson⟩]
  | .quantifiedSubquery left op quantifier q span =>
    nodeJson "Quantified" [⟨"left", left.toJson⟩, ⟨"op", op.toJson⟩,
      ⟨"quantifier", quantifier.toJson⟩, ⟨"right", formJson "Subquery" q.toJson⟩,
      ⟨"span", span.toJson⟩]
  | .cast e target span =>
    nodeJson "Cast" [⟨"expr", e.toJson⟩, ⟨"data_type", target.toJson⟩, ⟨"span", span.toJson⟩]
  | .typedString target value span =>
    nodeJson "TypedString" [⟨"data_type", target.toJson⟩, ⟨"value", .string value⟩,
      ⟨"span", span.toJson⟩]
  | .function call => formJson "Function" call.toJson
  | .case operand whens otherwise span =>
    nodeJson "Case" [⟨"operand", Expr.optionToJson operand⟩,
      ⟨"whens", .array (WhenClause.listToJson whens)⟩,
      ⟨"else_result", Expr.optionToJson otherwise⟩, ⟨"span", span.toJson⟩]
  | .existsRow q span => nodeJson "Exists" [⟨"subquery", q.toJson⟩, ⟨"span", span.toJson⟩]
  | .subquery q span => nodeJson "Subquery" [⟨"query", q.toJson⟩, ⟨"span", span.toJson⟩]
  | .array elements span =>
    nodeJson "Array" [⟨"elements", .array (Expr.listToJson elements)⟩, ⟨"span", span.toJson⟩]
  | .arraySubquery q span => nodeJson "ArraySubquery" [⟨"query", q.toJson⟩, ⟨"span", span.toJson⟩]
  | .row elements span =>
    nodeJson "Row" [⟨"elements", .array (Expr.listToJson elements)⟩, ⟨"span", span.toJson⟩]
  | .nested inner span => nodeJson "Nested" [⟨"expr", inner.toJson⟩, ⟨"span", span.toJson⟩]
  | .subscript e lower upper slice span =>
    nodeJson "Subscript" [⟨"expr", e.toJson⟩, ⟨"lower", Expr.optionToJson lower⟩,
      ⟨"upper", Expr.optionToJson upper⟩, ⟨"slice", .bool slice⟩, ⟨"span", span.toJson⟩]
  | .field e name span =>
    nodeJson "FieldAccess" [⟨"expr", e.toJson⟩, ⟨"field", name.toJson⟩, ⟨"span", span.toJson⟩]
  | .extract part source span =>
    nodeJson "Extract" [⟨"field", .string part⟩, ⟨"expr", source.toJson⟩, ⟨"span", span.toJson⟩]
  | .current kind span => nodeJson "Current" [⟨"kind", kind.toJson⟩, ⟨"span", span.toJson⟩]
  | .defaultValue span => nodeJson "Default" [⟨"span", span.toJson⟩]

def Expr.listToJson : List Expr → List Json
  | [] => []
  | e :: rest => e.toJson :: Expr.listToJson rest

def Expr.optionToJson : Option Expr → Json
  | none => .null
  | some e => e.toJson

def Expr.rowsToJson : List (List Expr) → List Json
  | [] => []
  | row :: rest => .array (Expr.listToJson row) :: Expr.rowsToJson rest

def WhenClause.toJson : WhenClause → Json
  | ⟨condition, result⟩ => .array [condition.toJson, result.toJson]

def WhenClause.listToJson : List WhenClause → List Json
  | [] => []
  | w :: rest => w.toJson :: WhenClause.listToJson rest

def OrderItem.toJson : OrderItem → Json
  | ⟨e, descending, nullsFirst⟩ =>
    .object [⟨"expr", e.toJson⟩, ⟨"descending", .bool descending⟩,
      ⟨"nulls_first", .ofOption .bool nullsFirst⟩]

def OrderItem.listToJson : List OrderItem → List Json
  | [] => []
  | i :: rest => i.toJson :: OrderItem.listToJson rest

def WindowSpec.toJson : WindowSpec → Json
  | ⟨name, partitionBy, orderBy, frame⟩ =>
    .object [⟨"name", Ident.optionToJson name⟩,
      ⟨"partition_by", .array (Expr.listToJson partitionBy)⟩,
      ⟨"order_by", .array (OrderItem.listToJson orderBy)⟩, ⟨"frame", .ofOption .string frame⟩]

def WindowSpec.optionToJson : Option WindowSpec → Json
  | none => .null
  | some w => w.toJson

def FunctionCall.toJson : FunctionCall → Json
  | ⟨name, args, star, distinct, orderBy, filter, window, span⟩ =>
    .object [⟨"name", name.toJson⟩, ⟨"args", .array (Expr.listToJson args)⟩, ⟨"star", .bool star⟩,
      ⟨"distinct", .bool distinct⟩, ⟨"order_by", .array (OrderItem.listToJson orderBy)⟩,
      ⟨"filter", Expr.optionToJson filter⟩, ⟨"over", WindowSpec.optionToJson window⟩,
      ⟨"span", span.toJson⟩]

def Values.toJson : Values → Json
  | ⟨rows, span⟩ => .object [⟨"rows", .array (Expr.rowsToJson rows)⟩, ⟨"span", span.toJson⟩]

def SelectItem.toJson : SelectItem → Json
  | .wildcard qualifier span =>
    nodeJson "Wildcard" [⟨"qualifier", .ofOption ObjectName.toJson qualifier⟩,
      ⟨"span", span.toJson⟩]
  | .expr e asName span =>
    nodeJson "Expr" [⟨"expr", e.toJson⟩, ⟨"alias", Ident.optionToJson asName⟩,
      ⟨"span", span.toJson⟩]

def SelectItem.listToJson : List SelectItem → List Json
  | [] => []
  | i :: rest => i.toJson :: SelectItem.listToJson rest

def Distinct.toJson : Distinct → Json
  | .absent => .null
  | .all => .string "All"
  | .distinct => .string "Distinct"
  | .on exprs => formJson "On" (.array (Expr.listToJson exprs))

def JoinConstraint.toJson : JoinConstraint → Json
  | .condition e => formJson "On" e.toJson
  | .columns names => formJson "Using" (Ident.listToJson names)
  | .natural => .string "Natural"
  | .none => .string "None"

/-- The first relation of a chain of joins, and the joins. -/
def Relation.chainToJson : Relation → Json × List Json
  | .table name asName span =>
    (nodeJson "Table" [⟨"name", name.toJson⟩, ⟨"alias", .ofOption TableAlias.toJson asName⟩,
      ⟨"span", span.toJson⟩], [])
  | .derived lateral q asName span =>
    (nodeJson "Derived" [⟨"lateral", .bool lateral⟩, ⟨"subquery", q.toJson⟩,
      ⟨"alias", .ofOption TableAlias.toJson asName⟩, ⟨"span", span.toJson⟩], [])
  | .function lateral call asName span =>
    (nodeJson "Function" [⟨"lateral", .bool lateral⟩, ⟨"call", call.toJson⟩,
      ⟨"alias", .ofOption TableAlias.toJson asName⟩, ⟨"span", span.toJson⟩], [])
  | .nested inner asName span =>
    (nodeJson "Nested" [⟨"table", chainJson inner.chainToJson⟩,
      ⟨"alias", .ofOption TableAlias.toJson asName⟩, ⟨"span", span.toJson⟩], [])
  | .join left kind right constraint span =>
    let (first, joins) := left.chainToJson
    (first, joins ++ [.object [⟨"kind", kind.toJson⟩, ⟨"relation", right.chainToJson.1⟩,
      ⟨"constraint", constraint.toJson⟩, ⟨"span", span.toJson⟩]])

def Relation.listToJson : List Relation → List Json
  | [] => []
  | r :: rest => chainJson r.chainToJson :: Relation.listToJson rest

def NamedWindow.toJson : NamedWindow → Json
  | ⟨name, spec⟩ => .object [⟨"name", name.toJson⟩, ⟨"spec", spec.toJson⟩]

def NamedWindow.listToJson : List NamedWindow → List Json
  | [] => []
  | w :: rest => w.toJson :: NamedWindow.listToJson rest

def Select.toJson : Select → Json
  | ⟨quantity, items, relations, selection, groupBy, having, windows, span⟩ =>
    .object [⟨"distinct", quantity.toJson⟩, ⟨"items", .array (SelectItem.listToJson items)⟩,
      ⟨"clauses", .array (clauseJson "From" (Relation.listToJson relations)
        ++ clauseOfJson "Where" (Expr.optionToJson selection)
        ++ clauseJson "GroupBy" (Expr.listToJson groupBy)
        ++ clauseOfJson "Having" (Expr.optionToJson having)
        ++ clauseJson "Window" (NamedWindow.listToJson windows))⟩,
      ⟨"span", span.toJson⟩]

def SetExpr.toJson : SetExpr → Json
  | .select s => formJson "Select" s.toJson
  | .values v => formJson "Values" v.toJson
  | .nested q => formJson "Nested" q.toJson
  | .operation op all left right span =>
    nodeJson "Operation" [⟨"op", op.toJson⟩, ⟨"all", .bool all⟩, ⟨"left", left.toJson⟩,
      ⟨"right", right.toJson⟩, ⟨"span", span.toJson⟩]

def Query.toJson : Query → Json
  | ⟨withClause, body, orderBy, limit, offset, locking, span⟩ =>
    .object [⟨"with", With.optionToJson withClause⟩, ⟨"body", body.toJson⟩,
      ⟨"order_by", .array (OrderItem.listToJson orderBy)⟩, ⟨"limit", Expr.optionToJson limit⟩,
      ⟨"offset", Expr.optionToJson offset⟩, ⟨"locking", .ofList Locking.toJson locking⟩,
      ⟨"span", span.toJson⟩]

def With.toJson : With → Json
  | ⟨recursive, ctes, span⟩ =>
    .object [⟨"recursive", .bool recursive⟩, ⟨"ctes", .array (Cte.listToJson ctes)⟩,
      ⟨"span", span.toJson⟩]

def With.optionToJson : Option With → Json
  | none => .null
  | some w => w.toJson

def Cte.toJson : Cte → Json
  | ⟨name, columns, body, span⟩ =>
    .object [⟨"name", name.toJson⟩, ⟨"columns", Ident.listToJson columns⟩, ⟨"body", body.toJson⟩,
      ⟨"span", span.toJson⟩]

def Cte.listToJson : List Cte → List Json
  | [] => []
  | c :: rest => c.toJson :: Cte.listToJson rest

def CteBody.toJson : CteBody → Json
  | .query q => formJson "Query" q.toJson
  | .values v => formJson "Values" v.toJson
  | .insert i => formJson "Insert" i.toJson
  | .update u => formJson "Update" u.toJson
  | .delete d => formJson "Delete" d.toJson

def InsertSource.toJson : InsertSource → Json
  | .values v => formJson "Values" v.toJson
  | .param ref => formJson "Param" ref.toJson
  | .query q => formJson "Query" q.toJson
  | .defaultValues => .string "DefaultValues"

def Assignment.toJson : Assignment → Json
  | ⟨columns, value, span⟩ =>
    .object [⟨"columns", Ident.listToJson columns⟩, ⟨"value", value.toJson⟩, ⟨"span", span.toJson⟩]

def Assignment.listToJson : List Assignment → List Json
  | [] => []
  | a :: rest => a.toJson :: Assignment.listToJson rest

def OnConflict.toJson : OnConflict → Json
  | .doNothing target span =>
    .object [⟨"target", .ofOption ConflictTarget.toJson target⟩, ⟨"action", .string "Nothing"⟩,
      ⟨"span", span.toJson⟩]
  | .doUpdate target assignments selection span =>
    .object [⟨"target", .ofOption ConflictTarget.toJson target⟩,
      ⟨"action", nodeJson "Update" [⟨"assignments", .array (Assignment.listToJson assignments)⟩,
        ⟨"selection", Expr.optionToJson selection⟩]⟩,
      ⟨"span", span.toJson⟩]

def OnConflict.optionToJson : Option OnConflict → Json
  | none => .null
  | some c => c.toJson

def Insert.toJson : Insert → Json
  | ⟨withClause, table, asName, columns, source, onConflict, returning, span⟩ =>
    .object [⟨"with", With.optionToJson withClause⟩, ⟨"table", table.toJson⟩,
      ⟨"alias", Ident.optionToJson asName⟩, ⟨"columns", Ident.listToJson columns⟩,
      ⟨"source", source.toJson⟩, ⟨"on_conflict", OnConflict.optionToJson onConflict⟩,
      ⟨"returning", .array (SelectItem.listToJson returning)⟩, ⟨"span", span.toJson⟩]

def Update.toJson : Update → Json
  | ⟨withClause, table, asName, assignments, relations, selection, returning, span⟩ =>
    .object [⟨"with", With.optionToJson withClause⟩, ⟨"table", table.toJson⟩,
      ⟨"alias", Ident.optionToJson asName⟩,
      ⟨"assignments", .array (Assignment.listToJson assignments)⟩,
      ⟨"from", .array (Relation.listToJson relations)⟩,
      ⟨"selection", Expr.optionToJson selection⟩,
      ⟨"returning", .array (SelectItem.listToJson returning)⟩, ⟨"span", span.toJson⟩]

def Delete.toJson : Delete → Json
  | ⟨withClause, table, asName, relations, selection, returning, span⟩ =>
    .object [⟨"with", With.optionToJson withClause⟩, ⟨"table", table.toJson⟩,
      ⟨"alias", Ident.optionToJson asName⟩, ⟨"using", .array (Relation.listToJson relations)⟩,
      ⟨"selection", Expr.optionToJson selection⟩,
      ⟨"returning", .array (SelectItem.listToJson returning)⟩, ⟨"span", span.toJson⟩]

end

/-! ## Statements -/

/-- The parts of a statement with its kind. -/
def statementJson (kind : String) : Json → Json
  | .object members => .object (⟨"statement", .string kind⟩ :: members)
  | json => json

def Transaction.toJson (t : Transaction) : Json :=
  .object [⟨"kind", t.kind.toJson⟩, ⟨"span", t.span.toJson⟩]

def Statement.toJson : Statement → Json
  | .query q => statementJson "query" q.toJson
  | .insert i => statementJson "insert" i.toJson
  | .update u => statementJson "update" u.toJson
  | .delete d => statementJson "delete" d.toJson
  | .transaction t => statementJson "transaction" t.toJson

end SqlTyping
