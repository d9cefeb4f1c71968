import SqlTyping.Extraction.Scope
import SqlTyping.Syntax.ResultName
import SqlTyping.TypeExpr.Builtin
import SqlTyping.TypeExpr.Construct

/-!
# Extraction of interfaces

`Statement.interface` walks over a statement and collects its sources, parameters and result
columns. Types that depend on the catalog are left as a `TypeExpr`. An expression is typed under the
type that is expected where it stands; a parameter takes that type.

A query in an expression is a source of its own that is no result. Its parameters are found there.
-/

namespace SqlTyping

open Extract

/-- A column of the table that a statement changes. -/
def targetColumn (target : String) (column : Ident) : TypeExpr :=
  .column none (some target) column.value column.span

def targetColumns (target : String) (columns : List Ident) : List TypeExpr :=
  columns.map (targetColumn target)

/-- The source for the table that a statement changes. -/
def targetSource (table : ObjectName) (asName : Option Ident) : Source :=
  .table (table.schema.map Ident.value) table.name.value (asName.map Ident.value) true table.span

/-- Names for the columns of a source. -/
def Source.withColumns (columns : List Ident) : Source → Source
  | .query name q isResult => .query name (q.renameResults (names columns)) isResult
  | .values name old types isResult =>
    .values name (if columns.isEmpty then old else some (names columns)) types isResult
  | source => source

/-- A named query as it is referred to. -/
def Source.aliased (asName : Option TableAlias) (source : Source) : Source :=
  match asName with
  | some asName => (source.renamed asName.name.value).withColumns asName.columns
  | none => source

/-- Adds a table, or the named query that hides it. -/
def addTable (name : ObjectName) (asName : Option TableAlias) (isResult : Bool) (span : Span) :
    Extract Unit := do
  match ← if name.schema.isNone then useNamed name.name.value else pure none with
  | some source => addSource ((source.aliased asName).withResult isResult)
  | none =>
    addSource (.table (name.schema.map Ident.value) name.name.value
      (asName.map (·.name.value)) isResult span)

/-- Adds a query in `FROM`. -/
def addDerived (q : Interface) (asName : Option TableAlias) (isResult : Bool) : Extract Unit := do
  match asName with
  | some asName =>
    addSource (.query asName.name.value (q.renameResults (names asName.columns)) isResult)
  | none => addSource (.query (← get).syntheticName q isResult)

/-- Adds the rows of a function in `FROM`, of which one column is known. -/
def addFunctionRows (name : ObjectName) (type : TypeExpr) (asName : Option TableAlias)
    (isResult : Bool) : Extract Unit :=
  let source := ((asName.map TableAlias.name).getD name.name).value
  let columns := match (asName.map TableAlias.columns).getD [] with
    | [] => [source]
    | columns => names columns
  addSource (.values source (some columns) [type] isResult)

def isUnnest (call : FunctionCall) : Bool :=
  call.name.schema.isNone && call.name.name.value == "unnest" && call.args.length == 1

/-- Marks the sides of a join whose columns may be null. The left side has the sources from `start`
on, the right side those from `middle` up to `stop`. -/
def markJoin (kind : JoinKind) (start middle stop : Nat) : Extract Unit := do
  if kind matches .left | .full then markNullable middle stop
  if kind matches .right | .full then markNullable start middle

/-- The columns of rows, given row by row. -/
def columnsOf (rows : List (List TypeExpr)) : List TypeExpr :=
  let width := (rows.map List.length).foldl max 0
  (List.range width).map fun i => .unionOf (rows.filterMap (·[i]?))

/-- The result columns of a `VALUES` list. -/
def addRows (types : List TypeExpr) (span : Span) : Extract Unit :=
  types.zipIdx.forM fun (type, i) => addResult ("column" ++ toString (i + 1)) type span

/-- The parameter of `INSERT ... VALUES $$rows(...)`, which has a field for each column. -/
def addRowsParam (ref : ParamRef) (target : String) (columns : List Ident) : Extract Unit :=
  let pick := names (if ref.pick.isEmpty then columns else ref.pick)
  let known := targetColumns target columns
  let fields := pick.zipIdx.map fun (field, i) =>
    ⟨field, known[i]?.getD (targetColumn target ⟨field, false, ref.span⟩)⟩
  addParam ref (if fields.isEmpty then .unknown else .object fields false) pick

/-- The rows that an `INSERT` proposes can be referred to as `excluded`. -/
def addExcluded (table : ObjectName) (span : Span) : Extract Unit :=
  addSource (.table (table.schema.map Ident.value) table.name.value (some "excluded") false span)

/-- The text of a string literal, apart from parentheses. -/
def Expr.stringLiteral? (e : Expr) : Option String :=
  match e.unnested with
  | .literal (.string value) _ => some value
  | _ => none

/-- May a function of this schema be a built-in one? -/
def isBuiltinSchema (schema : Option Ident) : Bool := schema.all (·.value == "pg_catalog")

/-- The type of a call whose arguments have the given types. A parameter among the arguments has the
type that the function declares for it, and any type in a built-in function. -/
def callType (name : ObjectName) (args : List Expr) (types : List TypeExpr) (star : Bool)
    (span : Span) : Extract TypeExpr := do
  let schema := name.schema.map Ident.value
  let call : BuiltinCall := {
    name := name.name.value, args := types, literals := args.map Expr.stringLiteral?, star }
  match if isBuiltinSchema name.schema then call.type? else none with
  | some type =>
    (args.filterMap Expr.param?).forM fun ref => do let _ ← useParam ref none
    return type
  | none =>
    args.zipIdx.forM fun (arg, i) =>
      match arg.param? with
      | some ref => do
        let _ ← useParam ref (some (.functionArgument schema name.name.value types i span))
      | none => pure ()
    return .function schema name.name.value types span

/-- The common type of arguments. -/
def commonType (name : ObjectName) (types : List TypeExpr) (star : Bool) : TypeExpr :=
  let call : BuiltinCall := { name := name.name.value, args := types, literals := [], star }
  call.type?.getD .unknown

/-- The type of a symbolic operator. A parameter takes the type of its side. -/
def operatorType (symbol : String) (left right : Operand) (span : Span) : Extract TypeExpr := do
  let available := Overload.ofSymbol symbol
  let part := TypeExpr.ofOperator symbol available (left.type?.getD .unknown)
    (right.type?.getD .unknown)
  let settle (operand : Operand) (p : OperatorPart) : Extract Unit :=
    match operand with
    | .param ref => do let _ ← useParam ref (some (part p span))
    | .typed _ => pure ()
  settle left .left
  settle right .right
  return part .result span

/-- Is the value a row or a query, whose parts are assigned to several columns? -/
def Expr.isTuple (e : Expr) : Bool :=
  match e.unnested with
  | .row .. | .subquery .. => true
  | _ => false

def Expr.isRow (e : Expr) : Bool := e.unnested matches .row ..

def Expr.isNullLiteral (e : Expr) : Bool := e.unnested matches .literal .null _

/-- The interface of a recursive query, whose body sees itself. What columns it has there, `first`
says, which extracts the first branch of the query. -/
def recursiveQuery (name : String) (columns : List Ident) (first whole : Extract Unit) :
    Extract Interface := do
  let outer := (← get).visible
  let start ← inScope outer [] first
  let self := Source.query name (start.renameResults (names columns)) true
  inScope (self :: outer.filter (!·.isNamed name)) [] whole

mutual

/-- The type of an expression where a value of type `expected` is expected. -/
def inferExpr (e : Expr) (expected : Option TypeExpr) : Extract TypeExpr :=
  match e with
  | .literal value _ => return .known value.type
  | .column schema table column span =>
    return .column (schema.map Ident.value) (table.map Ident.value) column.value span
  | .param ref => useParam ref expected
  | .unary op operand _ =>
    match op.symbol with
    | "NOT" => do
      let _ ← inferExpr operand (some .boolean)
      return .boolean
    | "|/" | "||/" | "!!" => do
      let _ ← inferExpr operand (some .number)
      return .number
    | _ => inferExpr operand expected
  | .binary left op right span =>
    match op.symbol with
    | "AND" | "OR" => do
      let _ ← inferExpr left (some .boolean)
      let _ ← inferExpr right (some .boolean)
      return .boolean
    | "AT TIME ZONE" => do
      let _ ← inferExpr left none
      let _ ← inferExpr right (some .string)
      return .known (SqlType.date.withPostgres "timestamp")
    | symbol =>
      if Overload.isComparison symbol then do
        let a ← Operand.of left.param? (inferExpr left none)
        let b ← Operand.of right.param? (inferExpr right none)
        let _ ← Operand.settle [a, b] none
        return .boolean
      else if (Overload.ofSymbol symbol).isEmpty then do
        let _ ← inferExpr left none
        let _ ← inferExpr right none
        return .unknown
      else do
        let a ← Operand.of left.param? (inferExpr left none)
        let b ← Operand.of right.param? (inferExpr right none)
        operatorType symbol a b span
  | .is operand _ test _ => do
    let _ ← inferExpr operand (if test == .null then none else some .boolean)
    return .boolean
  | .isDistinctFrom operand _ other _ => do
    let a ← Operand.of operand.param? (inferExpr operand none)
    let b ← Operand.of other.param? (inferExpr other none)
    let _ ← Operand.settle [a, b] none
    return .boolean
  | .between operand _ _ low high _ => do
    let a ← Operand.of operand.param? (inferExpr operand none)
    let b ← Operand.of low.param? (inferExpr low none)
    let c ← Operand.of high.param? (inferExpr high none)
    let _ ← Operand.settle [a, b, c] none
    return .boolean
  | .inList operand _ list _ => do
    let a ← Operand.of operand.param? (inferExpr operand none)
    let items ← inferOperands list none
    let _ ← Operand.settle (a :: items) none
    return .boolean
  | .inSubquery operand _ subquery span => do
    let q ← nested [] (extractQuery subquery)
    let first ← addValueSubquery q span
    let _ ← inferExpr operand (operand.param?.map fun _ => first)
    return .boolean
  | .inParam operand _ ref _ => do
    let item ← inferExpr operand none
    let _ ← useParam ref (some item)
    return .boolean
  | .like operand _ _ pattern escape _ => do
    let _ ← inferExpr operand (some .string)
    let _ ← inferExpr pattern (some .string)
    inferOption escape (some .string)
    return .boolean
  | .quantified left _ _ array _ =>
    match array.param? with
    | some ref => do
      let item ← inferExpr left none
      let _ ← useParam ref (some (.arrayOf item false))
      return .boolean
    | none => do
      let type ← inferExpr array none
      let _ ← inferExpr left (some type.itemOf)
      return .boolean
  | .quantifiedSubquery left _ _ query span => do
    let q ← nested [] (extractQuery query)
    let first ← addValueSubquery q span
    let _ ← inferExpr left (left.param?.map fun _ => first)
    return .boolean
  | .cast operand target span =>
    let type := TypeExpr.ofDataType target span
    if operand.isNullLiteral then return .unionOf [type, .null]
    else
      match operand.param? with
      | some ref => useParam ref (some type)
      | none => do
        let value ← inferExpr operand none
        if operand.isRow && type.isDeferred then return .record target.schema target.name span
        else return value.castTo type
  | .typedString target _ span => return .ofDataType target span
  | .function call => inferCall call expected
  | .case operand whens otherwise _ => do
    match operand with
    | some operand => do
      let a ← Operand.of operand.param? (inferExpr operand none)
      let conditions ← inferConditions whens
      let _ ← Operand.settle (a :: conditions) none
    | none => inferTests whens
    let results ← inferResults whens expected
    match otherwise with
    | some otherwise => do
      let last ← Operand.of otherwise.param? (inferExpr otherwise expected)
      return .unionOf (← Operand.settle (results ++ [last]) expected)
    | none => return .unionOf ((← Operand.settle results expected) ++ [.null])
  | .existsRow subquery _ => do
    let q ← nested [] (extractQuery subquery)
    let _ ← addSubquery q
    return .boolean
  | .subquery query span => do
    let q ← nested expected.toList (extractQuery query)
    let first ← addValueSubquery q span
    return .unionOf [first, .null]
  | .array elements _ => do
    let expected := expected.map TypeExpr.itemOf
    let operands ← inferOperands elements expected
    match ← Operand.settle operands expected with
    | [] => return .known (SqlType.array .unknown)
    | types => return .arrayOf (.unionOf types) false
  | .arraySubquery query span => do
    let q ← nested [] (extractQuery query)
    return .asArray (← addValueSubquery q span) false
  | .row elements _ => do
    let types ← inferExprs elements
    return .object (types.zipIdx.map fun (type, i) => ⟨"f" ++ toString (i + 1), type⟩) false
  | .nested inner _ => inferExpr inner expected
  | .subscript operand lower upper slice _ => do
    inferOption lower (some .number)
    inferOption upper (some .number)
    let array ← inferExpr operand none
    if slice then return array else return .unionOf [array.itemOf, .null]
  | .field operand name span => return (← inferExpr operand none).fieldOf name.value span
  | .extract _ source _ => do
    let _ ← inferExpr source (some (.known .date))
    return .known (SqlType.number.withPostgres "numeric")
  | .current kind _ => return .known kind.type
  | .defaultValue _ => return .unknown

def inferOption (e : Option Expr) (expected : Option TypeExpr) : Extract Unit :=
  match e with
  | none => pure ()
  | some e => do let _ ← inferExpr e expected

def inferExprs : List Expr → Extract (List TypeExpr)
  | [] => return []
  | e :: rest => do
    let type ← inferExpr e none
    return type :: (← inferExprs rest)

/-- Types expressions that should have one type, except for parameters. -/
def inferOperands (es : List Expr) (expected : Option TypeExpr) : Extract (List Operand) :=
  match es with
  | [] => return []
  | e :: rest => do
    let operand ← Operand.of e.param? (inferExpr e expected)
    return operand :: (← inferOperands rest expected)

/-- Types expressions under the expected types at their positions, and the others under `fallback`.
-/
def inferEach (es : List Expr) (expected : List TypeExpr) (fallback : Option TypeExpr) :
    Extract Unit :=
  match es with
  | [] => pure ()
  | e :: rest => do
    let _ ← inferExpr e (expected.head?.or fallback)
    inferEach rest expected.tail fallback

/-- Types arguments; a parameter has any type. -/
def inferArgs : List Expr → Extract (List TypeExpr)
  | [] => return []
  | arg :: rest => do
    let operand ← Operand.of arg.param? (inferExpr arg none)
    return operand.type?.getD (.known .any) :: (← inferArgs rest)

/-- Types the conditions of a `CASE` without operand. -/
def inferTests : List WhenClause → Extract Unit
  | [] => pure ()
  | w :: rest => do
    inferTest w
    inferTests rest

def inferTest : WhenClause → Extract Unit
  | ⟨condition, _⟩ => do let _ ← inferExpr condition (some .boolean)

/-- Types the values that the operand of a `CASE` is compared with. -/
def inferConditions : List WhenClause → Extract (List Operand)
  | [] => return []
  | w :: rest => do
    let condition ← inferCondition w
    return condition :: (← inferConditions rest)

def inferCondition : WhenClause → Extract Operand
  | ⟨condition, _⟩ => Operand.of condition.param? (inferExpr condition none)

def inferResults (whens : List WhenClause) (expected : Option TypeExpr) :
    Extract (List Operand) :=
  match whens with
  | [] => return []
  | w :: rest => do
    let result ← inferResult w expected
    return result :: (← inferResults rest expected)

def inferResult (w : WhenClause) (expected : Option TypeExpr) : Extract Operand :=
  match w with
  | ⟨_, result⟩ => Operand.of result.param? (inferExpr result expected)

def inferOrder : List OrderItem → Extract Unit
  | [] => pure ()
  | item :: rest => do
    inferOrderItem item
    inferOrder rest

def inferOrderItem : OrderItem → Extract Unit
  | ⟨e, _, _⟩ => do let _ ← inferExpr e none

def inferWindow : WindowSpec → Extract Unit
  | ⟨_, partitionBy, orderBy, _⟩ => do
    let _ ← inferExprs partitionBy
    inferOrder orderBy

def inferOver : Option WindowSpec → Extract Unit
  | none => pure ()
  | some spec => inferWindow spec

def inferWindows : List NamedWindow → Extract Unit
  | [] => pure ()
  | window :: rest => do
    inferNamedWindow window
    inferWindows rest

def inferNamedWindow : NamedWindow → Extract Unit
  | ⟨_, spec⟩ => inferWindow spec

def inferCall (call : FunctionCall) (expected : Option TypeExpr) : Extract TypeExpr :=
  match call with
  | ⟨name, args, star, _, orderBy, filter, window, span⟩ => do
    inferOrder orderBy
    inferOption filter (some .boolean)
    inferOver window
    if isBuiltinSchema name.schema && BuiltinCall.isCommonType name.name.value then
      let operands ← inferOperands args expected
      return commonType name (← Operand.settle operands expected) star
    else
      let types ← inferArgs args
      callType name args types star span

/-- The items of the array in `unnest(array)`. -/
def inferUnnest : FunctionCall → Extract TypeExpr
  | ⟨_, args, _, _, _, _, _, _⟩ => do
    let types ← inferExprs args
    return (types.head?.getD .unknown).itemOf

/-- The types of the columns of a `VALUES` list. -/
def inferValues : Values → Extract (List TypeExpr)
  | ⟨rows, _⟩ => do return columnsOf (← inferValueRows rows)

def inferValueRows : List (List Expr) → Extract (List (List TypeExpr))
  | [] => return []
  | row :: rest => do
    let operands ← inferOperands row none
    let types ← Operand.settle operands none
    return types :: (← inferValueRows rest)

def addItem : SelectItem → Extract Unit
  | .wildcard qualifier span =>
    addResult "*" (.star (qualifier.bind fun q => q.schema.map Ident.value)
      (qualifier.map (·.name.value)) span) span
  | .expr e asName span => do
    let type ← inferExpr e (← nextExpected)
    addResult ((asName.map Ident.value).getD e.resultName) type span

def addItems : List SelectItem → Extract Unit
  | [] => pure ()
  | item :: rest => do
    addItem item
    addItems rest

def inferDistinct : Distinct → Extract Unit
  | .on exprs => do let _ ← inferExprs exprs
  | .absent | .all | .distinct => pure ()

def extractSelect : Select → Extract Unit
  | ⟨quantity, items, relations, selection, groupBy, having, windows, _⟩ => do
    extractRelations relations true
    inferDistinct quantity
    addItems items
    inferOption selection (some .boolean)
    let _ ← inferExprs groupBy
    inferOption having (some .boolean)
    inferWindows windows

def extractValues : Values → Extract Unit
  | ⟨rows, span⟩ => do
    let types := columnsOf (← inferValueRows rows)
    addRows types span

/-- The left branch of a set operation gives the result columns. -/
def extractSetExpr : SetExpr → Extract Unit
  | .select select => extractSelect select
  | .values values => extractValues values
  | .nested query => extractQuery query
  | .operation _ _ left right _ => do
    extractSetExpr left
    let q ← nested [] (extractSetExpr right)
    let _ ← addSubquery q

/-- The first branch of a set operation. -/
def extractFirstBranch : SetExpr → Extract Unit
  | .select select => extractSelect select
  | .values values => extractValues values
  | .nested query => extractQuery query
  | .operation _ _ left _ _ => extractFirstBranch left

def extractQuery : Query → Extract Unit
  | ⟨withClause, body, orderBy, limit, offset, _, _⟩ => do
    extractWith withClause
    extractSetExpr body
    inferOrder orderBy
    inferOption limit (some .number)
    inferOption offset (some .number)

/-- The first branch of the body of a query. -/
def extractFirst : Query → Extract Unit
  | ⟨_, body, _, _, _, _, _⟩ => extractFirstBranch body

def extractWith : Option With → Extract Unit
  | none => pure ()
  | some withClause => extractWithClause withClause

def extractWithClause : With → Extract Unit
  | ⟨recursive, ctes, _⟩ => extractCtes recursive ctes

def extractCtes (recursive : Bool) : List Cte → Extract Unit
  | [] => pure ()
  | cte :: rest => do
    extractCte recursive cte
    extractCtes recursive rest

def extractCte (recursive : Bool) : Cte → Extract Unit
  | ⟨name, columns, body, _⟩ => extractCteBody recursive name.value columns body

def extractCteBody (recursive : Bool) (name : String) (columns : List Ident) (body : CteBody) :
    Extract Unit :=
  let add (q : Interface) : Extract Unit :=
    addNamed (.query name (q.renameResults (names columns)) true)
  match body with
  | .values values => do
    let types ← inferValues values
    addNamed (.values name (if columns.isEmpty then none else some (names columns)) types true)
  | .query query => do
    if recursive && query.body matches .operation .. then
      add (← recursiveQuery name columns (extractFirst query) (extractQuery query))
    else add (← nested [] (extractQuery query))
  | .insert insert => do add (← nested [] (extractInsert insert))
  | .update update => do add (← nested [] (extractUpdate update))
  | .delete delete => do add (← nested [] (extractDelete delete))

def extractRelation (relation : Relation) (isResult : Bool) : Extract Unit :=
  match relation with
  | .table name asName span => addTable name asName isResult span
  | .derived _ subquery asName _ => do
    let q ← nested [] (extractQuery subquery)
    addDerived q asName isResult
  | .function _ call asName _ => do
    let type ← if isUnnest call then inferUnnest call else inferCall call none
    addFunctionRows call.name type asName isResult
  | .nested inner _ _ => extractRelation inner isResult
  | .join left kind right constraint _ => do
    let start ← sourceCount
    extractRelation left isResult
    let middle ← sourceCount
    extractRelation right isResult
    markJoin kind start middle (← sourceCount)
    inferConstraint constraint

def inferConstraint : JoinConstraint → Extract Unit
  | .condition e => do let _ ← inferExpr e (some .boolean)
  | .columns _ | .natural | .none => pure ()

def extractRelations (relations : List Relation) (isResult : Bool) : Extract Unit :=
  match relations with
  | [] => pure ()
  | relation :: rest => do
    extractRelation relation isResult
    extractRelations rest isResult

def extractInsert : Insert → Extract Unit
  | ⟨withClause, table, asName, columns, source, onConflict, returning, _⟩ => do
    extractWith withClause
    let target := targetSource table asName
    addSource target
    extractInsertSource target.name columns source
    extractOnConflict target.name table onConflict
    addItems returning

def extractInsertSource (target : String) (columns : List Ident) : InsertSource → Extract Unit
  | .values values => inferInserted (targetColumns target columns) values
  | .param ref => addRowsParam ref target columns
  | .query query => do
    let q ← nested (targetColumns target columns) (extractQuery query)
    let _ ← addSubquery q
  | .defaultValues => pure ()

def inferInserted (columns : List TypeExpr) : Values → Extract Unit
  | ⟨rows, _⟩ => inferInsertedRows columns rows

def inferInsertedRows (columns : List TypeExpr) : List (List Expr) → Extract Unit
  | [] => pure ()
  | row :: rest => do
    inferEach row columns (some .unknown)
    inferInsertedRows columns rest

def extractOnConflict (target : String) (table : ObjectName) : Option OnConflict → Extract Unit
  | none => pure ()
  | some onConflict => extractConflict target table onConflict

def extractConflict (target : String) (table : ObjectName) : OnConflict → Extract Unit
  | .doNothing _ span => addExcluded table span
  | .doUpdate _ assignments selection span => do
    addExcluded table span
    extractAssignments target assignments
    inferOption selection (some .boolean)

def extractAssignments (target : String) : List Assignment → Extract Unit
  | [] => pure ()
  | assignment :: rest => do
    extractAssignment target assignment
    extractAssignments target rest

def extractAssignment (target : String) : Assignment → Extract Unit
  | ⟨columns, value, _⟩ =>
    match targetColumns target columns with
    | [column] => do let _ ← inferExpr value (some column)
    | columns =>
      if value.isTuple then inferTuple value columns else do let _ ← inferExpr value none

/-- Types the parts of a row or query that is assigned to several columns. -/
def inferTuple (e : Expr) (columns : List TypeExpr) : Extract Unit :=
  match e with
  | .nested inner _ => inferTuple inner columns
  | .row elements _ => inferEach elements columns none
  | .subquery query _ => do
    let q ← nested columns (extractQuery query)
    let _ ← addSubquery q
  | _ => pure ()

def extractUpdate : Update → Extract Unit
  | ⟨withClause, table, asName, assignments, relations, selection, returning, _⟩ => do
    extractWith withClause
    let target := targetSource table asName
    addSource target
    extractRelations relations false
    extractAssignments target.name assignments
    inferOption selection (some .boolean)
    addItems returning

def extractDelete : Delete → Extract Unit
  | ⟨withClause, table, asName, relations, selection, returning, _⟩ => do
    extractWith withClause
    addSource (targetSource table asName)
    extractRelations relations false
    inferOption selection (some .boolean)
    addItems returning

end

def extractStatement : Statement → Extract Unit
  | .query query => extractQuery query
  | .insert insert => extractInsert insert
  | .update update => extractUpdate update
  | .delete delete => extractDelete delete
  | .transaction _ => pure ()

/-- The interface of a statement inside which the named queries `outer` are visible. -/
def Statement.interface (statement : Statement) (outer : List Source) : Interface :=
  ((extractStatement statement).run (.fresh outer [])).2.finish

end SqlTyping
