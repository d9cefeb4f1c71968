import SqlTyping.Proofs.Params.Tracking

/-!
# Extraction follows the outline of the tree

One lemma for each function of the extraction, over the same recursion: it does to the ledger of the
scope what the outline of its tree does.
-/

namespace SqlTyping

open Extract Outline List

variable {H : Param TypeExpr → Prop}

theorem does_nextExpected : Does b H nextExpected skip := does_read fun s t h => by
    rw [show t.expected = s.expected from congrArg View.expected h.view,
      show t.interface.results.length = s.interface.results.length from
        congrArg View.results h.view]

theorem does_sourceCount : Does .quiet H sourceCount skip :=
  does_read fun _ _ h => h.count.resolve_left fun h => nomatch h.1

theorem does_addTarget (table : ObjectName) (asName : Option Ident) :
    Does b H (addSource (targetSource table asName)) skip :=
  does_addSource nofun rfl

theorem does_addExcluded (table : ObjectName) (span : Span) :
    Does b H (addExcluded table span) skip :=
  does_addSource nofun rfl

theorem does_addRows (types : List TypeExpr) (span : Span) :
    Does .loud H (addRows types span) skip := by
  unfold addRows
  generalize types.zipIdx = columns
  induction columns with
  | nil => exact .pure ()
  | cons column rest ih => exact (does_addResult _ _ _).close fun _ => ih

theorem does_markJoin (kind : JoinKind) (start middle stop : Nat) :
    Does b H (markJoin kind start middle stop) skip := by
  cases kind with
  | inner => exact .pure ()
  | cross => exact .pure ()
  | left => exact (does_markNullable _ _).close fun _ => .pure ()
  | right => exact does_markNullable _ _
  | full => exact (does_markNullable _ _).close fun _ => does_markNullable _ _

mutual

theorem does_inferExpr (e : Expr) (expected : Option TypeExpr) :
    Does b H (inferExpr e expected) (ofExpr e) := by
  match e with
  | .literal .. | .column .. | .typedString .. | .current .. | .defaultValue .. => exact .pure _
  | .param ref => exact does_useParam ref expected
  | .unary op operand _ =>
    have h := does_inferExpr (b := b) operand
    rw [inferExpr]
    split
    case h_1 | h_2 | h_3 | h_4 => exact (h _).andReturn
    case h_5 => exact h expected
  | .binary left op right span =>
    have hleft := does_inferExpr (b := b) left
    have hright := does_inferExpr (b := b) right
    rw [inferExpr]
    split
    case h_1 | h_2 | h_3 => exact (hleft _).bind fun _ => (hright _).andReturn
    · split
      · exact Tracks.does ((tracks_operand (hleft _)).bind fun a ha =>
          (tracks_operand (hright _)).close fun b hb =>
            (tracks_settle (by simp [ha, hb]) none (by simp)).andReturn
              fun _ => rfl)
      · split
        · exact (hleft _).bind fun _ => (hright _).andReturn
        · exact Tracks.does ((tracks_operand (hleft _)).bind fun a ha =>
            (tracks_operand (hright _)).close fun b hb =>
              tracks_operatorType ha hb _ _ (by simp))
  | .is operand _ test _ => exact (does_inferExpr operand _).andReturn
  | .isDistinctFrom operand _ other _ =>
    exact Tracks.does ((tracks_operand (does_inferExpr operand none)).bind fun a ha =>
      (tracks_operand (does_inferExpr other none)).close fun b hb =>
        (tracks_settle (by simp [ha, hb]) none (by simp)).andReturn
          fun _ => rfl)
  | .between operand _ _ low high _ =>
    exact Tracks.does ((tracks_operand (does_inferExpr operand none)).bind fun a ha =>
      (tracks_operand (does_inferExpr low none)).bind fun b hb =>
        (tracks_operand (does_inferExpr high none)).close fun c hc =>
          (tracks_settle (by simp [ha, hb, hc]) none (by simp)).andReturn
            fun _ => rfl)
  | .inList operand _ list _ =>
    exact Tracks.does ((tracks_operand (does_inferExpr operand none)).bind fun a ha =>
      (gathers_inferOperands list none _).close fun items hitems =>
        (tracks_settle (forall_mem_cons.2 ⟨ha, hitems⟩) none
          (by simp)).andReturn fun _ => rfl)
  | .inSubquery operand _ subquery span =>
    exact does_nested (does_extractQuery subquery) [] fun q hq =>
      (tracks_addValueSubquery hq span).before fun first =>
        ((does_inferExpr operand _).tracks ∅).andReturn fun _ => rfl
  | .inParam operand _ ref _ =>
    exact (does_inferExpr operand none).bind fun item => (does_useParam ref _).andReturn
  | .like operand _ _ pattern escape _ =>
    exact (does_inferExpr operand _).bind fun _ => (does_inferExpr pattern _).bind fun _ =>
      (does_inferOption escape _).andReturn
  | .quantified left _ _ array _ =>
    rw [inferExpr, ofExpr]
    split
    · next ref h =>
      rw [ofExpr_of_param? array h]
      have hdoes := (does_inferExpr (b := b) left none).bind fun item =>
        (does_useParam ref (some (.arrayOf item false))).andReturn (g := fun _ => TypeExpr.boolean)
      exact hdoes.congr ⟨fun l => run_note (ofExpr left) l _, by simp [Outline.refs]⟩
    · exact (does_inferExpr array none).bind fun type => (does_inferExpr left _).andReturn
  | .quantifiedSubquery left _ _ query span =>
    exact does_nested (does_extractQuery query) [] fun q hq =>
      (tracks_addValueSubquery hq span).before fun first =>
        ((does_inferExpr left _).tracks ∅).andReturn fun _ => rfl
  | .cast operand target span =>
    rw [inferExpr, ofExpr]
    split
    · next h =>
      rw [ofExpr_of_isNullLiteral operand h]
      exact .pure _
    · split
      · next ref h =>
        rw [ofExpr_of_param? operand h]
        exact does_useParam ref _
      · refine (does_inferExpr operand none).close fun value => ?_
        split <;> exact .pure _
  | .function call => exact does_inferCall call expected
  | .case operand whens otherwise _ =>
    have hrest : Does b H (do
        let results ← inferResults whens expected
        match otherwise with
        | some otherwise => do
          let last ← Operand.of otherwise.param? (inferExpr otherwise expected)
          return TypeExpr.unionOf (← Operand.settle (results ++ [last]) expected)
        | none => return .unionOf ((← Operand.settle results expected) ++ [.null]))
        ((ofResults whens).seq (ofOption otherwise)) := by
      refine Tracks.does (Q := fun _ => True)
        ((gathers_inferResults whens expected ∅).bind fun results hresults => ?_)
      match otherwise with
      | some otherwise =>
        refine (tracks_operand (does_inferExpr otherwise expected)).close fun last hlast => ?_
        have hall := forall_mem_append.2 ⟨hresults, forall_mem_singleton.2 hlast⟩
        exact (tracks_settle hall expected
          (by simp)).andReturn fun _ => rfl
      | none => exact (tracks_settle hresults expected rfl).andReturn fun _ => rfl
    match operand with
    | some operand =>
      rw [inferExpr]
      exact Tracks.does ((tracks_operand (does_inferExpr operand none)).bind fun a ha =>
        (gathers_inferConditions whens _).bind fun conditions hconditions =>
          (tracks_settle (forall_mem_cons.2 ⟨ha, hconditions⟩) none
            (by simp)).before fun _ => hrest.tracks ∅)
    | none =>
      rw [inferExpr]
      exact ((does_inferTests whens).bind fun _ => hrest).congr
        ⟨fun _ => rfl, by simp [ofExpr, ofOption, refs]⟩
  | .existsRow subquery _ =>
    exact does_subquery (does_extractQuery subquery) [] fun q hq =>
      (tracks_addSubquery hq).andReturn fun _ => rfl
  | .subquery query span =>
    exact does_subquery (does_extractQuery query) _ fun q hq =>
      (tracks_addValueSubquery hq span).andReturn fun _ => rfl
  | .array elements _ =>
    refine Tracks.does (Q := fun _ => True)
      ((gathers_inferOperands elements _ ∅).close fun operands hoperands => ?_)
    refine (tracks_settle hoperands _ rfl).close fun types _ => ?_
    split <;> exact .pure rfl
  | .arraySubquery query span =>
    exact does_subquery (does_extractQuery query) [] fun q hq =>
      (tracks_addValueSubquery hq span).andReturn fun _ => rfl
  | .row elements _ => exact (does_inferExprs elements).andReturn
  | .nested inner _ => exact does_inferExpr inner expected
  | .subscript operand lower upper slice _ =>
    refine (does_inferOption lower _).bind fun _ => (does_inferOption upper _).bind fun _ =>
      (does_inferExpr operand none).close fun array => ?_
    split <;> exact .pure _
  | .field operand name span => exact (does_inferExpr operand none).andReturn
  | .extract _ source _ => exact (does_inferExpr source _).andReturn

theorem does_inferOption (e : Option Expr) (expected : Option TypeExpr) :
    Does b H (inferOption e expected) (ofOption e) := by
  match e with
  | none => exact .pure ()
  | some e => exact (does_inferExpr e expected).andReturn

theorem does_inferExprs (es : List Expr) : Does b H (inferExprs es) (ofExprs es) := by
  match es with
  | [] => exact .pure []
  | e :: rest => exact (does_inferExpr e none).bind fun type => (does_inferExprs rest).andReturn

theorem gathers_inferOperands (es : List Expr) (expected : Option TypeExpr)
    (m : Finset Mention) :
    Gathers b H m (inferOperands es expected) (ofExprs es) := by
  match es with
  | [] => exact .nil
  | e :: rest =>
    exact .cons (tracks_operand (does_inferExpr e expected)) (gathers_inferOperands rest expected)

theorem does_inferEach (es : List Expr) (expected : List TypeExpr)
    (fallback : Option TypeExpr) :
    Does b H (inferEach es expected fallback) (ofExprs es) := by
  match es with
  | [] => exact .pure ()
  | e :: rest => exact (does_inferExpr e _).bind fun _ => does_inferEach rest expected.tail fallback

theorem tracks_inferArgs (args : List Expr) (m : Finset Mention) :
    Tracks b H m (inferArgs args) (fun _ => m ∪ direct args)
      (fun _ => Started H (args.filterMap Expr.param?)) (ofExprs args) := by
  match args with
  | [] => exact .give (Finset.union_empty m) nofun
  | arg :: rest =>
    rw [direct_cons, ← Finset.union_assoc, ← singleton_append, filterMap_append]
    exact (tracks_argument (does_inferExpr arg none)).bind fun _ harg =>
      (tracks_inferArgs rest _).close fun _ hrest =>
        .give rfl (forall_mem_append.2 ⟨harg, hrest⟩)

theorem does_inferTests (whens : List WhenClause) :
    Does b H (inferTests whens) (ofConditions whens) := by
  match whens with
  | [] => exact .pure ()
  | w :: rest => exact (does_inferTest w).bind fun _ => does_inferTests rest

theorem does_inferTest (w : WhenClause) : Does b H (inferTest w) (ofCondition w) := by
  match w with
  | ⟨condition, _⟩ => exact (does_inferExpr condition _).andReturn

theorem gathers_inferConditions (whens : List WhenClause) (m : Finset Mention) :
    Gathers b H m (inferConditions whens) (ofConditions whens) := by
  match whens with
  | [] => exact .nil
  | w :: rest => exact .cons (tracks_inferCondition w m) (gathers_inferConditions rest)

theorem tracks_inferCondition (w : WhenClause) (m : Finset Mention) :
    Tracks b H m (inferCondition w) (fun operand => m ∪ operand.mentions) (Operand.Starts H)
      (ofCondition w) := by
  match w with
  | ⟨condition, _⟩ => exact tracks_operand (does_inferExpr condition none)

theorem gathers_inferResults (whens : List WhenClause) (expected : Option TypeExpr)
    (m : Finset Mention) :
    Gathers b H m (inferResults whens expected) (ofResults whens) := by
  match whens with
  | [] => exact .nil
  | w :: rest => exact .cons (tracks_inferResult w expected m) (gathers_inferResults rest expected)

theorem tracks_inferResult (w : WhenClause) (expected : Option TypeExpr)
    (m : Finset Mention) :
    Tracks b H m (inferResult w expected) (fun operand => m ∪ operand.mentions) (Operand.Starts H)
      (ofResult w) := by
  match w with
  | ⟨_, result⟩ => exact tracks_operand (does_inferExpr result expected)

theorem does_inferOrder (items : List OrderItem) : Does b H (inferOrder items) (ofOrder items) := by
  match items with
  | [] => exact .pure ()
  | item :: rest => exact (does_inferOrderItem item).bind fun _ => does_inferOrder rest

theorem does_inferOrderItem (item : OrderItem) :
    Does b H (inferOrderItem item) (ofOrderItem item) := by
  match item with
  | ⟨e, _, _⟩ => exact (does_inferExpr e none).andReturn

theorem does_inferWindow (spec : WindowSpec) : Does b H (inferWindow spec) (ofWindow spec) := by
  match spec with
  | ⟨_, partitionBy, orderBy, _⟩ =>
    exact (does_inferExprs partitionBy).bind fun _ => does_inferOrder orderBy

theorem does_inferOver (window : Option WindowSpec) :
    Does b H (inferOver window) (ofOver window) := by
  match window with
  | none => exact .pure ()
  | some spec => exact does_inferWindow spec

theorem does_inferWindows (windows : List NamedWindow) :
    Does b H (inferWindows windows) (ofWindows windows) := by
  match windows with
  | [] => exact .pure ()
  | window :: rest => exact (does_inferNamedWindow window).bind fun _ => does_inferWindows rest

theorem does_inferNamedWindow (window : NamedWindow) :
    Does b H (inferNamedWindow window) (ofNamedWindow window) := by
  match window with
  | ⟨_, spec⟩ => exact does_inferWindow spec

theorem does_inferCall (call : FunctionCall) (expected : Option TypeExpr) :
    Does b H (inferCall call expected) (ofCall call) := by
  match call with
  | ⟨name, args, star, _, orderBy, filter, window, span⟩ =>
    refine (does_inferOrder orderBy).bind fun _ => (does_inferOption filter _).bind fun _ =>
      (does_inferOver window).bind fun _ => ?_
    split
    · exact Tracks.does ((gathers_inferOperands args expected ∅).close fun operands hoperands =>
        (tracks_settle hoperands expected rfl).andReturn fun _ => rfl)
    · exact Tracks.does ((tracks_inferArgs args ∅).close fun types hargs =>
        tracks_callType hargs _ _ _ _)

theorem does_inferUnnest (call : FunctionCall) : Does b H (inferUnnest call) (ofUnnest call) := by
  match call with
  | ⟨_, args, _, _, _, _, _, _⟩ =>
    exact ((does_inferExprs args).andReturn).congr ⟨fun _ => rfl, by simp [ofUnnest, Outline.refs]⟩

theorem does_inferValues (values : Values) : Does b H (inferValues values) (ofValues values) := by
  match values with
  | ⟨rows, _⟩ => exact (does_inferValueRows rows).andReturn

theorem does_inferValueRows (rows : List (List Expr)) :
    Does b H (inferValueRows rows) (ofRows rows) := by
  match rows with
  | [] => exact .pure []
  | row :: rest =>
    have hrow : Does b H (inferOperands row none >>= fun operands => Operand.settle operands none)
        (ofExprs row) :=
      Tracks.does ((gathers_inferOperands row none ∅).close fun operands hoperands =>
        tracks_settle hoperands none rfl)
    exact hrow.bind fun _ => (does_inferValueRows rest).andReturn

theorem does_addItem (item : SelectItem) : Does .loud H (addItem item) (ofItem item) := by
  match item with
  | .wildcard .. => exact does_addResult _ _ _
  | .expr e _ _ =>
    exact does_nextExpected.after fun expected =>
      (does_inferExpr e expected).close fun _ => does_addResult _ _ _

theorem does_addItems (items : List SelectItem) :
    Does .loud H (addItems items) (ofItems items) := by
  match items with
  | [] => exact .pure ()
  | item :: rest => exact (does_addItem item).bind fun _ => does_addItems rest

theorem does_inferDistinct (quantity : Distinct) :
    Does b H (inferDistinct quantity) (ofDistinct quantity) := by
  match quantity with
  | .on exprs => exact (does_inferExprs exprs).andReturn
  | .absent | .all | .distinct => exact .pure ()

theorem does_extractSelect (select : Select) :
    Does .loud H (extractSelect select) (ofSelect select) := by
  match select with
  | ⟨quantity, items, relations, selection, groupBy, having, windows, _⟩ =>
    exact (does_extractRelations relations true).loud.bind fun _ => (does_inferDistinct quantity).bind
      fun _ => (does_addItems items).bind fun _ => (does_inferOption selection _).bind fun _ =>
        (does_inferExprs groupBy).bind fun _ => (does_inferOption having _).bind fun _ =>
          does_inferWindows windows

theorem does_extractValues (values : Values) :
    Does .loud H (extractValues values) (ofValues values) := by
  match values with
  | ⟨rows, span⟩ => exact (does_inferValueRows rows).close fun _ => does_addRows _ span

theorem does_extractSetExpr (body : SetExpr) :
    Does .loud H (extractSetExpr body) ((ofSetExpr body).1.seq (ofSetExpr body).2) := by
  match body with
  | .select select =>
    exact (does_extractSelect select).congr ⟨fun _ => rfl, by simp [ofSetExpr, refs]⟩
  | .values values =>
    exact (does_extractValues values).congr ⟨fun _ => rfl, by simp [ofSetExpr, refs]⟩
  | .nested query =>
    exact (does_extractQuery query).congr ⟨fun _ => rfl, by simp [ofSetExpr, refs]⟩
  | .operation _ _ left right _ =>
    exact ((does_extractSetExpr left).bind fun _ =>
      does_subquery (does_extractSetExpr right) [] fun q hq =>
        (tracks_addSubquery hq).andReturn fun _ => rfl).congr
      ⟨fun _ => rfl, by simp [ofSetExpr, refs]⟩

theorem does_extractFirstBranch (body : SetExpr) :
    Does .loud H (extractFirstBranch body) (ofSetExpr body).1 := by
  match body with
  | .select select => exact does_extractSelect select
  | .values values => exact does_extractValues values
  | .nested query => exact does_extractQuery query
  | .operation _ _ left _ _ => exact does_extractFirstBranch left

theorem does_extractQuery (query : Query) :
    Does .loud H (extractQuery query) (ofQuery query).whole := by
  match query with
  | ⟨withClause, body, orderBy, limit, offset, _, _⟩ =>
    exact ((does_extractWith withClause).bind fun _ => (does_extractSetExpr body).bind fun _ =>
      (does_inferOrder orderBy).bind fun _ => (does_inferOption limit _).bind fun _ =>
        does_inferOption offset _).congr ⟨fun _ => rfl, by simp [ofQuery, Parts.whole, refs]⟩

theorem does_extractFirst (query : Query) :
    Does .loud H (extractFirst query) (ofQuery query).first := by
  match query with
  | ⟨_, body, _, _, _, _, _⟩ => exact does_extractFirstBranch body

theorem does_extractWith (withClause : Option With) :
    Does .loud H (extractWith withClause) (ofWith withClause) := by
  match withClause with
  | none => exact .pure ()
  | some withClause => exact does_extractWithClause withClause

theorem does_extractWithClause (withClause : With) :
    Does .loud H (extractWithClause withClause) (ofWithClause withClause) := by
  match withClause with
  | ⟨isRecursive, ctes, _⟩ => exact does_extractCtes isRecursive ctes

theorem does_extractCtes (isRecursive : Bool) (ctes : List Cte) :
    Does .loud H (extractCtes isRecursive ctes) (ofCtes isRecursive ctes) := by
  match ctes with
  | [] => exact .pure ()
  | cte :: rest =>
    exact (does_extractCte isRecursive cte).bind fun _ => does_extractCtes isRecursive rest

theorem does_extractCte (isRecursive : Bool) (cte : Cte) :
    Does .loud H (extractCte isRecursive cte) (ofCte isRecursive cte) := by
  match cte with
  | ⟨name, columns, body, _⟩ => exact does_extractCteBody isRecursive name.value columns body

theorem does_extractCteBody (isRecursive : Bool) (name : String)
    (columns : List Ident)
    (body : CteBody) :
    Does .loud H (extractCteBody isRecursive name columns body)
      (ofCteBody isRecursive name body) := by
  match body with
  | .values values => exact (does_inferValues values).bind fun _ => does_defineRows name _ _
  | .query query =>
    have hdefine := does_define (does_extractQuery query) name columns
    rw [extractCteBody, ofCteBody]
    cases hbody : query.body with
    | operation =>
      cases isRecursive with
      | false => exact hdefine
      | true => exact does_recursive (does_extractFirst query) (does_extractQuery query)
    | select | values | nested =>
      rw [Bool.and_false]
      exact hdefine
  | .insert insert => exact does_define (does_extractInsert insert) name columns
  | .update update => exact does_define (does_extractUpdate update) name columns
  | .delete delete => exact does_define (does_extractDelete delete) name columns

theorem does_extractRelation (relation : Relation) (isResult : Bool) :
    Does .quiet H (extractRelation relation isResult) (ofRelation relation) := by
  match relation with
  | .table name asName span => exact does_table name asName isResult span
  | .derived _ subquery asName _ =>
    exact does_subquery (does_extractQuery subquery) [] fun q hq =>
      tracks_addDerived hq asName isResult
  | .function _ call asName _ =>
    rw [extractRelation, ofRelation]
    split
    · exact (does_inferUnnest call).close fun type => does_addSource nofun rfl
    · exact (does_inferCall call none).close fun type => does_addSource nofun rfl
  | .nested inner _ _ => exact does_extractRelation inner isResult
  | .join left kind right constraint _ =>
    exact does_sourceCount.after fun start => (does_extractRelation left isResult).bind fun _ =>
      does_sourceCount.after fun middle => (does_extractRelation right isResult).bind fun _ =>
        does_sourceCount.after fun stop => (does_markJoin kind start middle stop).after fun _ =>
          does_inferConstraint constraint

theorem does_inferConstraint (constraint : JoinConstraint) :
    Does b H (inferConstraint constraint) (ofConstraint constraint) := by
  match constraint with
  | .condition e => exact (does_inferExpr e _).andReturn
  | .columns _ | .natural | .none => exact .pure ()

theorem does_extractRelations (relations : List Relation) (isResult : Bool) :
    Does .quiet H (extractRelations relations isResult) (ofRelations relations) := by
  match relations with
  | [] => exact .pure ()
  | relation :: rest =>
    exact (does_extractRelation relation isResult).bind fun _ => does_extractRelations rest isResult

theorem does_extractInsert (insert : Insert) :
    Does .loud H (extractInsert insert) (ofInsert insert) := by
  match insert with
  | ⟨withClause, into, asName, columns, source, onConflict, returning, _⟩ =>
    exact (does_extractWith withClause).bind fun _ => (does_addTarget into asName).after fun _ =>
      (does_extractInsertSource _ columns source).bind fun _ =>
        (does_extractOnConflict _ into onConflict).bind fun _ => does_addItems returning

theorem does_extractInsertSource (target : String) (columns : List Ident)
    (source : InsertSource) :
    Does b H (extractInsertSource target columns source) (ofInsertSource source) := by
  match source with
  | .values values => exact does_inferInserted _ values
  | .param ref =>
    refine does_addParam ref _ ?_
    cases hpick : ref.pick with
    | nil => exact .inl rfl
    | cons => exact .inr rfl
  | .query query =>
    exact does_subquery (does_extractQuery query) _ fun q hq =>
      (tracks_addSubquery hq).andReturn fun _ => rfl
  | .defaultValues => exact .pure ()

theorem does_inferInserted (columns : List TypeExpr) (values : Values) :
    Does b H (inferInserted columns values) (ofValues values) := by
  match values with
  | ⟨rows, _⟩ => exact does_inferInsertedRows columns rows

theorem does_inferInsertedRows (columns : List TypeExpr) (rows : List (List Expr)) :
    Does b H (inferInsertedRows columns rows) (ofRows rows) := by
  match rows with
  | [] => exact .pure ()
  | row :: rest =>
    exact (does_inferEach row columns _).bind fun _ => does_inferInsertedRows columns rest

theorem does_extractOnConflict (target : String) (table : ObjectName)
    (onConflict : Option OnConflict) :
    Does b H (extractOnConflict target table onConflict) (ofOnConflict onConflict) := by
  match onConflict with
  | none => exact .pure ()
  | some onConflict => exact does_extractConflict target table onConflict

theorem does_extractConflict (target : String) (table : ObjectName)
    (onConflict : OnConflict) :
    Does b H (extractConflict target table onConflict) (ofConflict onConflict) := by
  match onConflict with
  | .doNothing .. => exact does_addExcluded table _
  | .doUpdate _ assignments selection _ =>
    exact (does_addExcluded table _).after fun _ =>
      (does_extractAssignments target assignments).bind fun _ => does_inferOption selection _

theorem does_extractAssignments (target : String) (assignments : List Assignment) :
    Does b H (extractAssignments target assignments) (ofAssignments assignments) := by
  match assignments with
  | [] => exact .pure ()
  | assignment :: rest =>
    exact (does_extractAssignment target assignment).bind fun _ =>
      does_extractAssignments target rest

theorem does_extractAssignment (target : String) (assignment : Assignment) :
    Does b H (extractAssignment target assignment) (ofAssignment assignment) := by
  match assignment with
  | ⟨columns, value, _⟩ =>
    rw [extractAssignment]
    split
    · exact (does_inferExpr value _).andReturn
    · split
      · next h => exact does_inferTuple value _ h
      · exact (does_inferExpr value none).andReturn

theorem does_inferTuple (e : Expr) (columns : List TypeExpr) (h : e.isTuple = true) :
    Does b H (inferTuple e columns) (ofExpr e) := by
  cases e with
  | nested inner _ => exact does_inferTuple inner columns h
  | row elements _ => exact does_inferEach elements columns none
  | subquery query _ =>
    exact does_subquery (does_extractQuery query) columns fun q hq =>
      (tracks_addSubquery hq).andReturn fun _ => rfl
  | _ => cases h

theorem does_extractUpdate (update : Update) :
    Does .loud H (extractUpdate update) (ofUpdate update) := by
  match update with
  | ⟨withClause, changed, asName, assignments, relations, selection, returning, _⟩ =>
    exact (does_extractWith withClause).bind fun _ => (does_addTarget changed asName).after fun _ =>
      (does_extractRelations relations false).loud.bind fun _ =>
        (does_extractAssignments _ assignments).bind fun _ =>
          (does_inferOption selection _).bind fun _ => does_addItems returning

theorem does_extractDelete (delete : Delete) :
    Does .loud H (extractDelete delete) (ofDelete delete) := by
  match delete with
  | ⟨withClause, changed, asName, relations, selection, returning, _⟩ =>
    exact (does_extractWith withClause).bind fun _ => (does_addTarget changed asName).after fun _ =>
      (does_extractRelations relations false).loud.bind fun _ =>
        (does_inferOption selection _).bind fun _ => does_addItems returning

end

theorem does_extractStatement (statement : Statement) :
    Does .loud H (extractStatement statement) statement.outline := by
  cases statement with
  | query query => exact does_extractQuery query
  | insert insert => exact does_extractInsert insert
  | update update => exact does_extractUpdate update
  | delete delete => exact does_extractDelete delete
  | transaction => exact .pure ()

end SqlTyping
