import SqlTyping.Proofs.Extraction.Limits

/-!
# Extraction keeps to its limits

One lemma for each function of the extraction, over the same recursion: it adds no tables but those
that its tree mentions and no named query hides, all its types are within the limits if those that
are expected of it are, and a star stands for the items of the `FROM` list, those on the optional
side of a join being nullable.
-/

namespace SqlTyping

open List
open Text (fold)
open Extract hiding names
open Limits (expects_none expects_some expects_basic)

/-- Is this the name of a function whose arguments and result have one common type? -/
def ObjectName.isCommonType (name : ObjectName) : Bool :=
  isBuiltinSchema name.schema && BuiltinCall.isCommonType name.name.value

variable {L : Limits}

/-! ## What a tree may contain -/

/-- The limits allow each table of the list that no named query hides, and the functions. -/
structure Allowed (L : Limits) (mentions : List TableMention) (calls : List ObjectName) : Prop where
  tables : ∀ m ∈ mentions, m.hidden = false → L.table m.use
  calls : ∀ name ∈ calls, name.isCommonType = true → L.common

namespace Allowed

variable {a b : List TableMention} {c d : List ObjectName} {m : TableMention} {name : ObjectName}

theorem left (h : Allowed L (a ++ b) (c ++ d)) : Allowed L a c :=
  ⟨fun m hm => h.tables m (mem_append_left b hm),
    fun name hname => h.calls name (mem_append_left d hname)⟩

theorem right (h : Allowed L (a ++ b) (c ++ d)) : Allowed L b d :=
  ⟨fun m hm => h.tables m (mem_append_right a hm),
    fun name hname => h.calls name (mem_append_right c hname)⟩

theorem head (h : Allowed L (m :: a) c) : m.hidden = false → L.table m.use :=
  h.tables m mem_cons_self

theorem tail (h : Allowed L (m :: a) c) : Allowed L a c :=
  ⟨fun n hn => h.tables n (mem_cons_of_mem m hn), h.calls⟩

theorem callee (h : Allowed L a (name :: c)) : name.isCommonType = true → L.common :=
  h.calls name mem_cons_self

theorem args (h : Allowed L a (name :: c)) : Allowed L a c :=
  ⟨h.tables, fun other hother => h.calls other (mem_cons_of_mem name hother)⟩

end Allowed

/-- The limits allow what is found in a tree in the scope. -/
abbrev Allows (L : Limits) (names : Names) (of : {σ β : Type} → Fold σ β → σ → β) : Prop :=
  Allowed L (of .tables names) (of .calls ())

theorem subset_scope (names : Names) (withClause : Option With) :
    names ⊆ Fold.tables.scope names withClause := by
  have hctes (ctes : List Cte) (names : Names) :
      names ⊆ ctes.foldl (fun names cte => fold cte.name.value :: names) names := by
    induction ctes generalizing names with
    | nil => exact fun _ h => h
    | cons cte rest ih => exact fun _ h => ih (_ :: names) (mem_cons_of_mem _ h)
  cases withClause with
  | none => exact fun _ h => h
  | some withClause => exact hctes withClause.ctes names

theorem Literal.isBasic_type (value : Literal) : value.type.isBasic = true := by
  cases value with
  | number text =>
    show (numeralType text).isBasic = true
    unfold numeralType
    split
    · split
      · rfl
      · split <;> rfl
    · rfl
  | string | boolean | null => rfl

/-- A query whose rows a value is compared with. A parameter there takes the type of the column. -/
theorem keeps_valueSubquery {names : Names} {items : List Relation.Item} {body : Extract Unit}
    {operand : Option TypeExpr → Extract TypeExpr} {param? : Option ParamRef}
    (hbody : Adds L names items body)
    (hoperand : ∀ {expected}, L.Expects expected → Keeps L names (operand expected) L.type)
    (span : Span) :
    Keeps L names (do
      let q ← nested [] body
      let first ← addValueSubquery q span
      let _ ← operand (param?.map fun _ => first)
      return TypeExpr.boolean) L.type := by
  refine hbody.nested.bind fun q hq =>
    (keeps_addValueSubquery hq span).bind fun first hfirst =>
      Adds.andReturn (hoperand ?_) fun _ _ => L.basic rfl
  cases param? with
  | none => exact expects_none
  | some ref => exact expects_some hfirst

/-! ## Extraction -/

theorem adds_target {names : Names} {table : ObjectName}
    (h : L.table (TableMention.change table table.span).use) (asName : Option Ident) :
    Adds L names [(targetItem table asName, false)] (addSource (targetSource table asName)) := by
  refine adds_addSource [((targetItem table asName, false), _)] (.table h) rfl
    (forall_mem_singleton.2 ⟨⟨?_, fun _ => ?_⟩, rfl⟩)
  · rintro _ ⟨⟩
    cases asName <;> rfl
  · exact ⟨table, _, table.span, rfl, by cases asName <;> rfl⟩

/-- The rows that a statement proposes for the table that it changes. -/
theorem keeps_addExcluded {names : Names} {table : ObjectName} {span : Span}
    (h : L.table (TableMention.change table span).use) :
    Keeps L names (addExcluded table span) :=
  keeps_addHidden (.table h) rfl

/-- A named query that is extracted. -/
theorem defines_named {names : Names} {x : Extract Interface}
    (h : Keeps L names x (Interface.Within L)) (name : String) (columns : List Ident) :
    Defines L names (x >>= fun q =>
      addNamed (.query name (q.renameResults (Extract.names columns)) true)) (fold name :: names) :=
  h.define fun _ hq => defines_addNamed rfl (hq.renameResults (Extract.names columns)).source

mutual

theorem keeps_inferExpr (e : Expr) {expected : Option TypeExpr} (he : L.Expects expected)
    (h : Allows L names (·.expr · e)) : Keeps L names (inferExpr e expected) L.type := by
  match e with
  | .literal value _ => exact .pure (L.basic value.isBasic_type)
  | .column .. => exact .pure (L.column _ _ _ _)
  | .typedString target _ span => exact .pure (L.dataType target span)
  | .current kind _ => exact .pure (L.basic (by cases kind <;> rfl))
  | .defaultValue _ => exact .pure (L.basic rfl)
  | .param ref => exact keeps_useParam he ref
  | .unary op operand _ =>
    have hoperand {expected} (he : L.Expects expected) := keeps_inferExpr operand he h
    have hfixed {t u : SqlType} (ht : t.isBasic = true) (hu : u.isBasic = true) :
        Keeps L names (inferExpr operand (some (.known t)) >>= fun _ => pure (.known u)) L.type :=
      (hoperand (expects_basic ht)).basic hu
    rw [inferExpr]
    split
    case h_1 | h_2 | h_3 | h_4 => exact hfixed rfl rfl
    case h_5 => exact hoperand he
  | .binary left op right span =>
    have hleft {expected} (he : L.Expects expected) := keeps_inferExpr left he h.left
    have hright {expected} (he : L.Expects expected) := keeps_inferExpr right he h.right
    rw [inferExpr]
    split
    case h_1 | h_2 =>
      exact (hleft (expects_basic rfl)).bind fun _ _ =>
        (hright (expects_basic rfl)).basic rfl
    · exact (hleft expects_none).bind fun _ _ =>
        (hright (expects_basic rfl)).basic rfl
    · split
      · exact (keeps_operand (hleft expects_none) _).bind fun a ha =>
          (keeps_operand (hright expects_none) _).bind fun b hb =>
            (keeps_settle (by simp [ha, hb]) expects_none).basic rfl
      · split
        · exact (hleft expects_none).bind fun _ _ =>
            (hright expects_none).basic rfl
        · exact (keeps_operand (hleft expects_none) _).bind fun a ha =>
            (keeps_operand (hright expects_none) _).bind fun b hb => keeps_operatorType ha hb _ _
  | .is operand _ test _ =>
    have htest : L.Expects (if test == .null then none else some .boolean) := by
      split
      · exact expects_none
      · exact expects_basic rfl
    exact (keeps_inferExpr operand htest h).basic rfl
  | .isDistinctFrom operand _ other _ =>
    exact (keeps_operand (keeps_inferExpr operand expects_none h.left) _).bind fun a ha =>
      (keeps_operand (keeps_inferExpr other expects_none h.right) _).bind fun b hb =>
        (keeps_settle (by simp [ha, hb]) expects_none).basic rfl
  | .between operand _ _ low high _ =>
    exact (keeps_operand (keeps_inferExpr operand expects_none h.left) _).bind fun a ha =>
      (keeps_operand (keeps_inferExpr low expects_none h.right.left) _).bind fun b hb =>
        (keeps_operand (keeps_inferExpr high expects_none h.right.right) _).bind fun c hc =>
          (keeps_settle (by simp [ha, hb, hc]) expects_none).basic rfl
  | .inList operand _ list _ =>
    exact (keeps_operand (keeps_inferExpr operand expects_none h.left) _).bind fun a ha =>
      (keeps_inferOperands list expects_none h.right).bind fun items hitems =>
        (keeps_settle (forall_mem_cons.2 ⟨ha, hitems⟩) expects_none).basic rfl
  | .inSubquery operand _ subquery span =>
    have hoperand {expected} (he : L.Expects expected) := keeps_inferExpr operand he h.left
    exact keeps_valueSubquery (adds_extractQuery id subquery (fun _ _ => .refl _) h.right) hoperand
      span
  | .inParam operand _ ref _ =>
    exact (keeps_inferExpr operand expects_none h.left).bind fun item hitem =>
      (keeps_useParam (expects_some hitem) ref).basic rfl
  | .like operand _ _ pattern escape _ =>
    exact (keeps_inferExpr operand (expects_basic rfl) h.left).bind fun _ _ =>
      (keeps_inferExpr pattern (expects_basic rfl) h.right.left).bind fun _ _ =>
        (keeps_inferOption escape (expects_basic rfl) h.right.right).basic rfl
  | .quantified left _ _ array _ =>
    have hleft {expected} (he : L.Expects expected) := keeps_inferExpr left he h.left
    have harray := keeps_inferExpr array expects_none h.right
    rw [inferExpr]
    split
    · exact (hleft expects_none).bind fun item hitem =>
        (keeps_useParam (expects_some (L.array hitem)) _).basic rfl
    · exact harray.bind fun type htype =>
        (hleft (expects_some (L.item htype))).basic rfl
  | .quantifiedSubquery left _ _ query span =>
    have hleft {expected} (he : L.Expects expected) := keeps_inferExpr left he h.left
    exact keeps_valueSubquery (adds_extractQuery id query (fun _ _ => .refl _) h.right) hleft span
  | .cast operand target span =>
    have hoperand := keeps_inferExpr operand expects_none h
    rw [inferExpr]
    split
    · exact .pure (L.union_pair (L.dataType target span) (L.basic rfl))
    · split
      · exact keeps_useParam (expects_some (L.dataType target span)) _
      · refine hoperand.bind fun value hvalue => ?_
        split
        · exact .pure (L.record _ _ _)
        · exact .pure (L.cast target span hvalue)
  | .function call => exact keeps_inferCall call he h
  | .case operand whens otherwise _ =>
    have hrest : Keeps L names (do
        let results ← inferResults whens expected
        match otherwise with
        | some otherwise => do
          let last ← Operand.of otherwise.param? (inferExpr otherwise expected)
          return TypeExpr.unionOf (← Operand.settle (results ++ [last]) expected)
        | none => return .unionOf ((← Operand.settle results expected) ++ [.null])) L.type := by
      refine (keeps_inferResults whens he h.right.left).bind fun results hresults => ?_
      match otherwise with
      | some otherwise =>
        refine (keeps_operand (keeps_inferExpr otherwise he h.right.right) _).bind
          fun last hlast => ?_
        exact (keeps_settle (forall_mem_append.2
          ⟨hresults, forall_mem_singleton.2 hlast⟩) he).andReturn fun _ hts => L.union hts
      | none =>
        exact (keeps_settle hresults he).andReturn fun _ hts => L.union
          (forall_mem_append.2 ⟨hts, forall_mem_singleton.2 (L.basic rfl)⟩)
    match operand with
    | some operand =>
      rw [inferExpr]
      exact (keeps_operand (keeps_inferExpr operand expects_none h.left) _).bind fun a ha =>
        (keeps_inferConditions whens h.right.left).bind fun conditions hconditions =>
          (keeps_settle (forall_mem_cons.2 ⟨ha, hconditions⟩) expects_none).bind fun _ _ => hrest
    | none =>
      rw [inferExpr]
      exact (keeps_inferTests whens h.right.left).bind fun _ _ => hrest
  | .existsRow subquery _ =>
    exact (adds_extractQuery id subquery (fun _ _ => .refl _) h).nested.bind fun q hq =>
      (keeps_addSubquery hq).basic rfl
  | .subquery query span =>
    have hexpected : ∀ t ∈ expected.toList, L.type t := fun t ht => he t (Option.mem_toList.1 ht)
    have hq := keeps_nested hexpected (adds_extractQuery id query (fun _ _ => .refl _) h)
    exact hq.bind fun q hq =>
      (keeps_addValueSubquery hq span).andReturn fun _ ht => L.union_pair ht (L.basic rfl)
  | .array elements _ =>
    have hitem : L.Expects (expected.map TypeExpr.itemOf) := by
      intro t ht
      obtain ⟨u, hu, rfl⟩ := Option.map_eq_some_iff.1 ht
      exact L.item (he u hu)
    have hexprs : Allows L names (·.exprs · elements) := by
      rw [Allows, ← Fold.elements_eq_exprs _ _ rfl, ← Fold.elements_eq_exprs _ _ rfl]
      exact h
    refine (keeps_inferOperands elements hitem hexprs).bind fun operands hoperands => ?_
    refine (keeps_settle hoperands hitem).bind fun types htypes => ?_
    split
    · exact .pure (L.basic rfl)
    · exact .pure (L.array (L.union htypes))
  | .arraySubquery query span =>
    exact (adds_extractQuery id query (fun _ _ => .refl _) h).nested.bind fun q hq =>
      (keeps_addValueSubquery hq span).andReturn fun first hfirst => L.asArray hfirst
  | .row elements _ =>
    refine (keeps_inferExprs elements h).andReturn fun types htypes => L.object fun f hf => ?_
    obtain ⟨⟨type, i⟩, hmem, rfl⟩ := mem_map.1 hf
    exact htypes type (fst_mem_of_mem_zipIdx hmem)
  | .nested inner _ => exact keeps_inferExpr inner he h
  | .subscript operand lower upper slice _ =>
    refine (keeps_inferOption lower (expects_basic rfl) h.right.left).bind fun _ _ =>
      (keeps_inferOption upper (expects_basic rfl) h.right.right).bind fun _ _ =>
        (keeps_inferExpr operand expects_none h.left).bind fun array harray => ?_
    split
    · exact .pure harray
    · exact .pure (L.union_pair (L.item harray) (L.basic rfl))
  | .field operand name span =>
    exact (keeps_inferExpr operand expects_none h).andReturn fun _ ht => L.field _ span ht
  | .extract _ source _ =>
    exact (keeps_inferExpr source (expects_basic rfl) h).basic rfl

theorem keeps_inferOption (e : Option Expr) {expected : Option TypeExpr} (he : L.Expects expected)
    (h : Allows L names (·.expr? · e)) :
    Keeps L names (inferOption e expected) := by
  match e with
  | none => exact .pure trivial
  | some e => exact (keeps_inferExpr e he h).done

theorem keeps_inferExprs (es : List Expr)
    (h : Allows L names (·.exprs · es)) :
    Keeps L names (inferExprs es) fun ts => ∀ t ∈ ts, L.type t := by
  match es with
  | [] => exact .pure nofun
  | e :: rest =>
    exact (keeps_inferExpr e expects_none h.left).cons (keeps_inferExprs rest h.right)

theorem keeps_inferOperands (es : List Expr) {expected : Option TypeExpr} (he : L.Expects expected)
    (h : Allows L names (·.exprs · es)) :
    Keeps L names (inferOperands es expected) fun os => ∀ o ∈ os, o.Within L := by
  match es with
  | [] => exact .pure nofun
  | e :: rest =>
    exact (keeps_operand (keeps_inferExpr e he h.left) _).cons (keeps_inferOperands rest he h.right)

theorem keeps_inferEach (es : List Expr) {expected : List TypeExpr} {fallback : Option TypeExpr}
    (he : ∀ t ∈ expected, L.type t) (hfallback : L.Expects fallback)
    (h : Allows L names (·.exprs · es)) :
    Keeps L names (inferEach es expected fallback) := by
  match es with
  | [] => exact .pure trivial
  | e :: rest =>
    have hfirst : L.Expects (expected.head?.or fallback) := by
      intro t ht
      rcases Option.or_eq_some_iff.1 ht with ht | ⟨-, ht⟩
      · exact he t (mem_of_mem_head? ht)
      · exact hfallback t ht
    exact (keeps_inferExpr e hfirst h.left).bind fun _ _ =>
      keeps_inferEach rest (fun t ht => he t (mem_of_mem_tail ht)) hfallback h.right

theorem keeps_inferArgs (args : List Expr)
    (h : Allows L names (·.exprs · args)) :
    Keeps L names (inferArgs args) fun ts => ∀ t ∈ ts, L.type t := by
  match args with
  | [] => exact .pure nofun
  | arg :: rest =>
    refine (keeps_operand (keeps_inferExpr arg expects_none h.left) _).bind fun operand ho =>
      (keeps_inferArgs rest h.right).andReturn fun _ hts => forall_mem_cons.2 ⟨?_, hts⟩
    cases hany : operand.type? with
    | none => exact L.basic rfl
    | some t => exact ho t hany

theorem keeps_inferTests (whens : List WhenClause)
    (h : Allows L names (·.tests · whens)) :
    Keeps L names (inferTests whens) := by
  match whens with
  | [] => exact .pure trivial
  | w :: rest =>
    exact (keeps_inferTest w h.left).bind fun _ _ => keeps_inferTests rest h.right

theorem keeps_inferTest (w : WhenClause) (h : Allows L names (·.test · w)) :
    Keeps L names (inferTest w) := by
  match w with
  | ⟨condition, _⟩ =>
    exact (keeps_inferExpr condition (expects_basic rfl) h.left).done

theorem keeps_inferConditions (whens : List WhenClause)
    (h : Allows L names (·.tests · whens)) :
    Keeps L names (inferConditions whens) fun os => ∀ o ∈ os, o.Within L := by
  match whens with
  | [] => exact .pure nofun
  | w :: rest =>
    exact (keeps_inferCondition w h.left).cons (keeps_inferConditions rest h.right)

theorem keeps_inferCondition (w : WhenClause) (h : Allows L names (·.test · w)) :
    Keeps L names (inferCondition w) (Operand.Within L) := by
  match w with
  | ⟨condition, _⟩ => exact keeps_operand (keeps_inferExpr condition expects_none h.left) _

theorem keeps_inferResults (whens : List WhenClause) {expected : Option TypeExpr}
    (he : L.Expects expected)
    (h : Allows L names (·.tests · whens)) :
    Keeps L names (inferResults whens expected) fun os => ∀ o ∈ os, o.Within L := by
  match whens with
  | [] => exact .pure nofun
  | w :: rest =>
    exact (keeps_inferResult w he h.left).cons (keeps_inferResults rest he h.right)

theorem keeps_inferResult (w : WhenClause) {expected : Option TypeExpr} (he : L.Expects expected)
    (h : Allows L names (·.test · w)) :
    Keeps L names (inferResult w expected) (Operand.Within L) := by
  match w with
  | ⟨_, result⟩ => exact keeps_operand (keeps_inferExpr result he h.right) _

theorem keeps_inferOrder (items : List OrderItem)
    (h : Allows L names (·.order · items)) :
    Keeps L names (inferOrder items) := by
  match items with
  | [] => exact .pure trivial
  | item :: rest =>
    exact (keeps_inferOrderItem item h.left).bind fun _ _ => keeps_inferOrder rest h.right

theorem keeps_inferOrderItem (item : OrderItem) (h : Allows L names (·.orderItem · item)) :
    Keeps L names (inferOrderItem item) := by
  match item with
  | ⟨e, _, _⟩ => exact (keeps_inferExpr e expects_none h).done

theorem keeps_inferWindow (spec : WindowSpec) (h : Allows L names (·.window · spec)) :
    Keeps L names (inferWindow spec) := by
  match spec with
  | ⟨_, partitionBy, orderBy, _⟩ =>
    exact (keeps_inferExprs partitionBy h.left).bind fun _ _ => keeps_inferOrder orderBy h.right

theorem keeps_inferOver (window : Option WindowSpec)
    (h : Allows L names (·.window? · window)) :
    Keeps L names (inferOver window) := by
  match window with
  | none => exact .pure trivial
  | some spec => exact keeps_inferWindow spec h

theorem keeps_inferWindows (windows : List NamedWindow)
    (h : Allows L names (·.windows · windows)) :
    Keeps L names (inferWindows windows) := by
  match windows with
  | [] => exact .pure trivial
  | window :: rest =>
    exact (keeps_inferNamedWindow window h.left).bind fun _ _ => keeps_inferWindows rest h.right

theorem keeps_inferNamedWindow (window : NamedWindow)
    (h : Allows L names (·.namedWindow · window)) :
    Keeps L names (inferNamedWindow window) := by
  match window with
  | ⟨_, spec⟩ => exact keeps_inferWindow spec h

theorem keeps_inferCall (call : FunctionCall) {expected : Option TypeExpr} (he : L.Expects expected)
    (h : Allows L names (·.call · call)) :
    Keeps L names (inferCall call expected) L.type := by
  match call with
  | ⟨name, args, star, _, orderBy, filter, window, span⟩ =>
    refine (keeps_inferOrder orderBy h.right.left).bind fun _ _ =>
      (keeps_inferOption filter (expects_basic rfl) h.right.right.left).bind fun _ _ =>
        (keeps_inferOver window h.right.right.right).bind fun _ _ => ?_
    split
    · next hcommon =>
      exact (keeps_inferOperands args he h.left.args).bind fun operands hoperands =>
        (keeps_settle hoperands he).andReturn fun _ hts =>
          types_commonType hts (h.left.callee hcommon) name star
    · exact (keeps_inferArgs args h.left.args).bind fun types htypes =>
        keeps_callType htypes h.left.callee args star span

theorem keeps_inferUnnest (call : FunctionCall) (h : Allows L names (·.call · call)) :
    Keeps L names (inferUnnest call) L.type := by
  match call with
  | ⟨_, args, _, _, _, _, _, _⟩ =>
    refine (keeps_inferExprs args h.left.args).andReturn fun types htypes => L.item ?_
    cases types with
    | nil => exact L.basic rfl
    | cons t rest => exact htypes t mem_cons_self

theorem keeps_inferValues (values : Values) (h : Allows L names (·.values · values)) :
    Keeps L names (inferValues values) fun ts => ∀ t ∈ ts, L.type t := by
  match values with
  | ⟨rows, _⟩ => exact (keeps_inferValueRows rows h).andReturn fun _ => Limits.types_columnsOf

theorem keeps_inferValueRows (rows : List (List Expr))
    (h : Allows L names (·.rows · rows)) :
    Keeps L names (inferValueRows rows) fun rows => ∀ row ∈ rows, ∀ t ∈ row, L.type t := by
  match rows with
  | [] => exact .pure nofun
  | row :: rest =>
    exact (keeps_inferOperands row expects_none h.left).bind fun operands hoperands =>
      (keeps_settle hoperands expects_none).bind fun _ hts =>
        (keeps_inferValueRows rest h.right).andReturn fun _ hrest =>
          forall_mem_cons.2 ⟨hts, hrest⟩

theorem keeps_addItem (item : SelectItem) (h : Allows L names (·.item · item)) :
    Keeps L names (addItem item) := by
  match item with
  | .wildcard .. => exact keeps_addResult (.inr ⟨_, _, _, rfl⟩)
  | .expr e _ _ =>
    exact keeps_nextExpected.bind fun _ he =>
      (keeps_inferExpr e he h).bind fun _ ht => keeps_addResult (.inl ht)

theorem keeps_addItems (items : List SelectItem)
    (h : Allows L names (·.items · items)) :
    Keeps L names (addItems items) := by
  match items with
  | [] => exact .pure trivial
  | item :: rest => exact (keeps_addItem item h.left).bind fun _ _ => keeps_addItems rest h.right

theorem keeps_inferDistinct (quantity : Distinct)
    (h : Allows L names (·.quantity · quantity)) :
    Keeps L names (inferDistinct quantity) := by
  match quantity with
  | .on exprs => exact (keeps_inferExprs exprs h).done
  | .absent | .all | .distinct => exact .pure trivial

theorem adds_extractSelect (select : Select) (h : Allows L names (·.select · select)) :
    Adds L names (SetExpr.items (.select select)) (extractSelect select) := by
  match select with
  | ⟨quantity, items, relations, selection, groupBy, having, windows, _⟩ =>
    have hquantity := keeps_inferDistinct quantity h.left
    have hitems := keeps_addItems items h.right.left
    have hrelations := adds_extractRelations relations true h.right.right.left
    replace h := h.right.right.right
    exact hrelations.close fun _ _ => hquantity.bind fun _ _ => hitems.bind fun _ _ =>
      (keeps_inferOption selection (expects_basic rfl) h.left).bind fun _ _ =>
        (keeps_inferExprs groupBy h.right.left).bind fun _ _ =>
          (keeps_inferOption having (expects_basic rfl) h.right.right.left).bind fun _ _ =>
            keeps_inferWindows windows h.right.right.right

theorem keeps_extractValues (values : Values) (h : Allows L names (·.values · values)) :
    Keeps L names (extractValues values) := by
  match values with
  | ⟨rows, span⟩ =>
    exact (keeps_inferValueRows rows h).bind fun _ hrows =>
      keeps_addRows (Limits.types_columnsOf hrows) span

/-- The scope of the whole body has the names of the scope of its first branch. -/
theorem adds_extractSetExpr {first names : Names} (body : SetExpr) (hfirst : first ⊆ names)
    (h : Allowed L (Fold.tables.setExpr first names body) (Fold.calls.setExpr () () body)) :
    Adds L names body.items (extractSetExpr body) := by
  match body with
  | .select select => exact (adds_extractSelect select h).mono hfirst
  | .values values => exact (keeps_extractValues values h).mono hfirst
  | .nested query => exact (adds_extractQuery id query (fun _ _ => .refl _) h).mono hfirst
  | .operation _ _ left right _ =>
    have hright := adds_extractSetExpr right (List.Subset.refl names) h.right
    exact (adds_extractSetExpr left hfirst h.left).close fun _ _ =>
      hright.nested.bind fun q hq =>
        (keeps_addSubquery hq).done

theorem adds_extractFirstBranch {first names : Names} (body : SetExpr)
    (h : Allowed L (Fold.tables.setExpr first names body) (Fold.calls.setExpr () () body)) :
    Adds L first body.items (extractFirstBranch body) := by
  match body with
  | .select select => exact adds_extractSelect select h
  | .values values => exact keeps_extractValues values h
  | .nested query => exact adds_extractQuery id query (fun _ _ => .refl _) h
  | .operation _ _ left _ _ => exact adds_extractFirstBranch left h.left

theorem adds_extractQuery (first : Names → Names) (query : Query)
    (hfirst : ∀ inside, names ⊆ inside → first inside ⊆ inside)
    (h : Allowed L (Fold.tables.query first names query) (Fold.calls.query id () query)) :
    Adds L names query.items (extractQuery query) := by
  match query with
  | ⟨withClause, body, orderBy, limit, offset, _, _⟩ =>
    have hsub := hfirst _ (subset_scope names withClause)
    exact (defines_extractWith withClause h.left).andThen fun _ =>
      (adds_extractSetExpr body hsub h.right.left).close fun _ _ =>
        (keeps_inferOrder orderBy h.right.right.left).bind fun _ _ =>
          (keeps_inferOption limit (expects_basic rfl) h.right.right.right.left).bind fun _ _ =>
            keeps_inferOption offset (expects_basic rfl) h.right.right.right.right

theorem adds_extractFirst {first names : Names} (query : Query)
    (h : Allowed L (Fold.tables.query (fun _ => first) names query) (Fold.calls.query id () query)) :
    Adds L first query.items (extractFirst query) := by
  match query with
  | ⟨_, body, _, _, _, _, _⟩ => exact adds_extractFirstBranch body h.right.left

theorem defines_extractWith (withClause : Option With)
    (h : Allows L names (·.with? · withClause)) :
    Defines L names (extractWith withClause) (Fold.tables.scope names withClause) := by
  match withClause with
  | none => exact .pure
  | some withClause => exact defines_extractWithClause withClause h

theorem defines_extractWithClause (withClause : With)
    (h : Allows L names (·.withClause · withClause)) :
    Defines L names (extractWithClause withClause) (Fold.tables.scope names (some withClause)) := by
  match withClause with
  | ⟨isRecursive, ctes, _⟩ => exact defines_extractCtes isRecursive ctes h

theorem defines_extractCtes (isRecursive : Bool) (ctes : List Cte)
    (h : Allows L names (·.ctes isRecursive · ctes)) :
    Defines L names (extractCtes isRecursive ctes)
      (ctes.foldl (fun names cte => fold cte.name.value :: names) names) := by
  match ctes with
  | [] => exact .pure
  | cte :: rest =>
    exact (defines_extractCte isRecursive cte h.left).bind fun _ =>
      defines_extractCtes isRecursive rest h.right

theorem defines_extractCte (isRecursive : Bool) (cte : Cte)
    (h : Allows L names (·.cte isRecursive · cte)) :
    Defines L names (extractCte isRecursive cte) (fold cte.name.value :: names) := by
  match cte with
  | ⟨name, columns, body, _⟩ => exact defines_extractCteBody isRecursive name columns body h

theorem defines_extractCteBody (isRecursive : Bool) (name : Ident) (columns : List Ident)
    (body : CteBody) (h : Allows L names (·.cteBody isRecursive name · body)) :
    Defines L names (extractCteBody isRecursive name.value columns body)
      (fold name.value :: names) := by
  match body with
  | .values values =>
    exact (keeps_inferValues values h).define fun _ hts => defines_addNamed rfl (.values hts)
  | .query query =>
    have hplain (h : Allows L names (·.query id · query)) :=
      defines_named (adds_extractQuery id query (fun _ _ => .refl _) h).nested name.value columns
    have hsub (inside : Names) (h : fold name.value :: names ⊆ inside) : names ⊆ inside :=
      subset_of_cons_subset h
    have hrecursive (h : Allowed L
        (Fold.tables.query (fun _ => names) (fold name.value :: names) query)
        (Fold.calls.query id () query)) :=
      defines_named (keeps_recursiveQuery columns (adds_extractFirst query h)
        (adds_extractQuery (fun _ => names) query hsub h)) name.value columns
    revert h
    rw [Allows, Fold.cteBody, Fold.cteBody, extractCteBody]
    cases query.body with
    | operation =>
      cases isRecursive with
      | false => exact hplain
      | true => exact hrecursive
    | select | values | nested =>
      rw [Bool.and_false]
      exact hplain
  | .insert insert =>
    exact defines_named (adds_extractInsert insert h).nested name.value columns
  | .update update =>
    exact defines_named (adds_extractUpdate update h).nested name.value columns
  | .delete delete =>
    exact defines_named (adds_extractDelete delete h).nested name.value columns

theorem adds_extractRelation (relation : Relation) (isResult : Bool)
    (h : Allows L names (·.relation · relation)) :
    Adds L names (relation.items isResult) (extractRelation relation isResult) := by
  match relation with
  | .table name asName span => exact adds_addTable h.head
  | .derived lateral subquery asName span =>
    exact (adds_extractQuery id subquery (fun _ _ => .refl _) h).nested.bind fun q hq =>
      adds_addDerived hq lateral subquery asName isResult span
  | .function lateral call asName span =>
    have hunnest := keeps_inferUnnest call h
    have hcall := keeps_inferCall call expects_none h
    rw [extractRelation]
    split
    · exact hunnest.bind fun _ ht => adds_addFunctionRows ht lateral call asName isResult span
    · exact hcall.bind fun _ ht => adds_addFunctionRows ht lateral call asName isResult span
  | .nested inner _ _ => exact adds_extractRelation inner isResult h
  | .join left kind right constraint _ =>
    exact .join (adds_extractRelation left isResult h.left)
      (adds_extractRelation right isResult h.right.left)
      (keeps_inferConstraint constraint h.right.right) kind

theorem keeps_inferConstraint (constraint : JoinConstraint)
    (h : Allows L names (·.constraint · constraint)) :
    Keeps L names (inferConstraint constraint) := by
  match constraint with
  | .condition e => exact (keeps_inferExpr e (expects_basic rfl) h).done
  | .columns _ | .natural | .none => exact .pure trivial

theorem adds_extractRelations (relations : List Relation) (isResult : Bool)
    (h : Allows L names (·.relations · relations)) :
    Adds L names (relations.flatMap (Relation.items isResult))
      (extractRelations relations isResult) := by
  match relations with
  | [] => exact .pure trivial
  | relation :: rest =>
    exact (adds_extractRelation relation isResult h.left).bind fun _ _ =>
      adds_extractRelations rest isResult h.right

theorem adds_extractInsert (insert : Insert) (h : Allows L names (·.insert · insert)) :
    Adds L names (Statement.items (.insert insert)) (extractInsert insert) := by
  match insert with
  | ⟨withClause, into, asName, columns, source, onConflict, returning, _⟩ =>
    have hwith := defines_extractWith withClause h.left
    replace h := h.right
    exact hwith.andThen fun _ => (adds_target (h.head rfl) asName).close fun _ _ =>
      (keeps_extractInsertSource _ columns source h.tail.left).bind fun _ _ =>
        (keeps_extractOnConflict _ into onConflict h.tail.right.left).bind fun _ _ =>
          keeps_addItems returning h.tail.right.right

theorem keeps_extractInsertSource (target : String) (columns : List Ident) (source : InsertSource)
    (h : Allows L names (·.insertSource · source)) :
    Keeps L names (extractInsertSource target columns source) := by
  have hcolumns := Limits.types_targetColumns (L := L) target columns
  match source with
  | .values values => exact keeps_inferInserted hcolumns values h
  | .param ref => exact keeps_addRowsParam ref target columns
  | .query query =>
    exact (keeps_nested hcolumns (adds_extractQuery id query (fun _ _ => .refl _) h)).bind fun q hq =>
      (keeps_addSubquery hq).done
  | .defaultValues => exact .pure trivial

theorem keeps_inferInserted {columns : List TypeExpr} (hcolumns : ∀ t ∈ columns, L.type t)
    (values : Values) (h : Allows L names (·.values · values)) :
    Keeps L names (inferInserted columns values) := by
  match values with
  | ⟨rows, _⟩ => exact keeps_inferInsertedRows hcolumns rows h

theorem keeps_inferInsertedRows {columns : List TypeExpr} (hcolumns : ∀ t ∈ columns, L.type t)
    (rows : List (List Expr))
    (h : Allows L names (·.rows · rows)) :
    Keeps L names (inferInsertedRows columns rows) := by
  match rows with
  | [] => exact .pure trivial
  | row :: rest =>
    exact (keeps_inferEach row hcolumns (expects_basic rfl) h.left).bind fun _ _ =>
      keeps_inferInsertedRows hcolumns rest h.right

theorem keeps_extractOnConflict (target : String) (table : ObjectName)
    (onConflict : Option OnConflict)
    (h : Allows L names (·.conflict? table · onConflict)) :
    Keeps L names (extractOnConflict target table onConflict) := by
  match onConflict with
  | none => exact .pure trivial
  | some onConflict => exact keeps_extractConflict target table onConflict h

theorem keeps_extractConflict (target : String) (table : ObjectName) (onConflict : OnConflict)
    (h : Allows L names (·.conflict table · onConflict)) :
    Keeps L names (extractConflict target table onConflict) := by
  match onConflict with
  | .doNothing .. => exact keeps_addExcluded (h.head rfl)
  | .doUpdate _ assignments selection _ =>
    exact (keeps_addExcluded (h.head rfl)).bind fun _ _ =>
      (keeps_extractAssignments target assignments h.tail.left).bind fun _ _ =>
        keeps_inferOption selection (expects_basic rfl) h.tail.right

theorem keeps_extractAssignments (target : String) (assignments : List Assignment)
    (h : Allows L names (·.assignments · assignments)) :
    Keeps L names (extractAssignments target assignments) := by
  match assignments with
  | [] => exact .pure trivial
  | assignment :: rest =>
    exact (keeps_extractAssignment target assignment h.left).bind fun _ _ =>
      keeps_extractAssignments target rest h.right

theorem keeps_extractAssignment (target : String) (assignment : Assignment)
    (h : Allows L names (·.assignment · assignment)) :
    Keeps L names (extractAssignment target assignment) := by
  match assignment with
  | ⟨columns, value, _⟩ =>
    have hcolumns := Limits.types_targetColumns (L := L) target columns
    have hvalue {expected} (he : L.Expects expected) := keeps_inferExpr value he h
    have htuple := keeps_inferTuple value hcolumns h
    rw [extractAssignment]
    split
    · next column hcolumn =>
      rw [hcolumn, forall_mem_singleton] at hcolumns
      exact (hvalue (expects_some hcolumns)).done
    · split
      · exact htuple
      · exact (hvalue expects_none).done

theorem keeps_inferTuple (e : Expr) {columns : List TypeExpr} (hcolumns : ∀ t ∈ columns, L.type t)
    (h : Allows L names (·.expr · e)) : Keeps L names (inferTuple e columns) := by
  cases e with
  | nested inner _ => exact keeps_inferTuple inner hcolumns h
  | row elements _ => exact keeps_inferEach elements hcolumns expects_none h
  | subquery query _ =>
    exact (keeps_nested hcolumns (adds_extractQuery id query (fun _ _ => .refl _) h)).bind fun q hq =>
      (keeps_addSubquery hq).done
  | _ => exact .pure trivial

theorem adds_extractUpdate (update : Update) (h : Allows L names (·.update · update)) :
    Adds L names (Statement.items (.update update)) (extractUpdate update) := by
  match update with
  | ⟨withClause, changed, asName, assignments, relations, selection, returning, _⟩ =>
    have hwith := defines_extractWith withClause h.left
    replace h := h.right
    have hrelations := adds_extractRelations relations false h.tail.right.left
    rw [Relation.listItems_false] at hrelations
    have hassignments := keeps_extractAssignments (targetSource changed asName).name assignments
      h.tail.left
    exact hwith.andThen fun _ => (adds_target (h.head rfl) asName).close fun _ _ =>
      hrelations.bind fun _ _ => hassignments.bind fun _ _ =>
        (keeps_inferOption selection (expects_basic rfl) h.tail.right.right.left).bind fun _ _ =>
          keeps_addItems returning h.tail.right.right.right

theorem adds_extractDelete (delete : Delete) (h : Allows L names (·.delete · delete)) :
    Adds L names (Statement.items (.delete delete)) (extractDelete delete) := by
  match delete with
  | ⟨withClause, changed, asName, relations, selection, returning, _⟩ =>
    have hwith := defines_extractWith withClause h.left
    replace h := h.right
    have hrelations := adds_extractRelations relations false h.tail.left
    rw [Relation.listItems_false] at hrelations
    exact hwith.andThen fun _ => (adds_target (h.head rfl) asName).close fun _ _ =>
      hrelations.bind fun _ _ =>
        (keeps_inferOption selection (expects_basic rfl) h.tail.right.left).bind fun _ _ =>
          keeps_addItems returning h.tail.right.right

end

theorem adds_extractStatement (statement : Statement)
    (h : Allowed L statement.tables statement.calls) :
    Adds L [] statement.items (extractStatement statement) := by
  cases statement with
  | query query => exact adds_extractQuery id query (fun _ _ => .refl _) h
  | insert insert => exact adds_extractInsert insert h
  | update update => exact adds_extractUpdate update h
  | delete delete => exact adds_extractDelete delete h
  | transaction => exact .pure trivial

theorem Statement.within_interface (st : Statement) (h : Allowed L st.tables st.calls)
    {outer : List Source} (houter : ∀ source ∈ outer, source.Within L) :
    (st.interface outer).Within L := by
  obtain ⟨hstep, -⟩ := adds_extractStatement st h (.fresh outer [])
    (Scope.within_fresh houter nofun) nofun
  exact hstep.within.finish.1

end SqlTyping
