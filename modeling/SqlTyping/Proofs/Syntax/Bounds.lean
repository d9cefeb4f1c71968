import SqlTyping.Proofs.Syntax.Agreement

/-!
# The bounds of the grammar

Every construct starts with a token of its own before the constructs inside it. So a grammar for `n`
constructs around each other has room for every text with less than `n` characters, and a grammar
with more room reads no text in another way, also if it is respelled (`Grammar.agrees_within`). The
instances say of each rule which combinator it starts with; those of its parts are found from there.
-/

namespace SqlTyping

open Likeness List

variable {name : Rule Ident} {op op' : Operator} {unary unary' : Rule Expr}
  {words : List (String × SetOperator)} {limit limit' offset offset' : Option Expr} {n : Nat}

/-! ## Parts of names and parameters -/

instance : Akin Ident.value Ident.value :=
  ⟨fun a b (h : a.unplaced = b.unplaced) => (congrArg Ident.value h :)⟩

instance : Akin Ident.quoted Ident.quoted :=
  ⟨fun a b (h : a.unplaced = b.unplaced) => (congrArg Ident.quoted h :)⟩

instance : Akin ParamRef.spread ParamRef.spread :=
  ⟨fun a b (h : a.unplaced = b.unplaced) => (congrArg ParamRef.spread h :)⟩

namespace Grammar

open Rule

set_option synthInstance.maxSize 2000

instance : Akin identOf identOf := by
  refine ⟨fun a b (h : a.value.1 = b.value.1 ∧ a.value.2 = b.value.2) => ?_⟩
  show (identOf a).unplaced = (identOf b).unplaced
  rw [identOf, identOf, h.1, h.2]
  rfl

theorem hasFields_unplaced (e : Expr) : hasFields (e.rewrite .unplaced) = hasFields e := by
  cases e <;> rfl

instance : Akin hasFields hasFields := by
  refine ⟨fun e e' (h : e.rewrite .unplaced = e'.rewrite .unplaced) => ?_⟩
  show hasFields e = hasFields e'
  rw [← hasFields_unplaced, h, hasFields_unplaced]

/-! ## Names and types -/

instance : Stable n ident := .bind

instance : Stable n label := .bind

instance [Stable 0 name] : (dotted name).Consumes := .bind

instance [Stable n name] : Stable n (dotted name) := .bind

instance : Stable n objectName := by
  refine .startStep fun start start' => .step fun first first' hfirst =>
    .step fun parts parts' h => ?_
  have hfirst : Akin first first' := ⟨hfirst⟩
  cases h with
  | nil => infer_instance
  | cons hsecond h =>
    have hsecond := Akin.mk hsecond
    cases h with
    | nil => infer_instance
    | cons hthird h =>
      have hthird := Akin.mk hthird
      cases h with
      | nil => infer_instance
      | cons _ _ => exact .fail _

instance : Stable n identList := .parens

instance : Stable n paramRef := .bind

instance : Stable n asName := .boolCases

instance {name name' : String} [h : Akin name name'] :
    (secondWord name).Agrees n (secondWord name') := by
  obtain rfl : name = name' := h.like
  unfold secondWord
  split <;> infer_instance

instance : Stable n modifiers := .parens

instance {name name' : String} [h : Akin name name'] :
    (timeZone name).Agrees n (timeZone name') := by
  obtain rfl : name = name' := h.like
  exact .cond

instance : Stable n dimension := .bind

instance : dimension.Consumes := .bind

instance : Stable n arrayKeyword := .boolCases

instance : Stable n dataType := .startStep fun _ _ => .bind

/-! ## Keywords with a meaning -/

instance : Stable n descending := .optionCases

instance : Stable n symmetric := .optionCases

instance : Stable n isDistinct := .optionCases

instance : Stable n trimName := .optionCases

instance : Stable n keepsDuplicates := .optionCases

instance : Stable n nullsFirst := .bind

instance : Stable n truthTest := .bind

instance : Stable n likeKind := .optionCases

instance : likeKind.Consumes := .maybeCases

theorem isWord_of_mem {word : String} (hword : .connective word ∈ levels) :
    Lexeme.isWord word = true := by
  simp only [levels, mem_cons, Level.connective.injEq, reduceCtorEq, not_mem_nil, or_false] at hword
  rcases hword with rfl | rfl
  · decide
  · decide

instance (word : String) [IsWord word] : Stable n (outerJoin word) := .bind

instance (word : String) [IsWord word] : (outerJoin word).Consumes := .bind

instance : Stable n innerJoin := .bind

instance : innerJoin.Consumes := .later

instance : Stable n joinKind := .boolCases

instance : joinKind.Consumes := .foundCases

instance : Stable n frameExclusion := .bind

instance : Stable n fetchEnd := .optionCases

instance : Stable n lockStrength := .boolCases

instance : Stable n lockedTables := .bind

instance : Stable n lockWait := .boolCases

instance : Stable n locking := .start

instance : locking.Consumes := .start

instance : Stable n materialized := .boolCases

instance : Stable n endsRows := .boolCases

/-! ## Parts of expressions and clauses -/

instance : Stable n qualifiedStar := .bind

instance : Stable n baseWindow := .bind

instance : Stable n functionName := .optionCases

instance : Stable n argumentName := .bind

instance : Stable n literalValue := .firstOf_cons

instance : literalValue.Consumes := .firstOf_cons

instance : Stable n literal := .start

instance : Stable n defaultValue := .bind

instance : Stable n current := .start

instance : Stable n typedString := .start

instance : Stable n extractPart := .optionCases

instance : Stable n finishedPart := .bind

instance : Stable n columnPart := .bind

instance : Stable n column := by
  refine .startStep fun start start' => .step fun first first' hfirst =>
    .optionStep (fun part part' hpart => ?_) ?_
  · have hfirst : Akin first first' := ⟨hfirst⟩
    obtain ⟨second, more⟩ := part
    obtain ⟨second', more'⟩ := part'
    have hsecond : Akin second second' := ⟨hpart.1⟩
    obtain rfl : more = more' := hpart.2
    cases more with
    | false => infer_instance
    | true => exact .optionPairs
  · have hfirst : Akin first first' := ⟨hfirst⟩
    infer_instance

instance {e e' : Expr} [Akin e e'] : (fieldOf e).Agrees n (fieldOf e') := .cond

instance (e : Expr) : (fieldOf e).Consumes := .cond

instance : Stable n collation := .bind

instance : collation.Consumes := .bind

instance : Stable n tableAlias := .bind

instance : Stable n ordinality := .keywords _

instance (start start' : Nat) : (table start).Agrees n (table start') := .bind

instance : Stable n assignedColumn := .bind

instance : Stable n assignedColumns := .optionCases

instance : Stable n insertAlias := .bind

instance (next : String) : Stable n (targetAlias next) := .bind

instance (next : String) : Stable n (changedTable next) := .bind

instance : Stable n spreadRows := .bind

instance : Stable n noColumns := .bind

instance : noColumns.Consumes := .bind

/-! ## Transactions -/

instance : Stable n isolationLevel := .boolCases

instance : Stable n transactionMode := .boolCases

instance : transactionMode.Consumes := .foundCases

instance : Stable n transactionModes := .bind

instance (first second : String) [IsWord first] [IsWord second] :
    Stable n (either first second) := .boolCases

instance : Stable n workWord := .found

instance : Stable n startTransaction := .boolCases

instance : Stable n toSavepoint := .bind

instance : Stable n transactionKind := .boolCases

instance : Stable n transaction := .start

instance : Stable n changeKind := .boolCases

/-! ## Constructs -/

/-- The grammars agree, as long as less than `n` characters are left. -/
class Agrees (n : Nat) (g g' : Grammar) : Prop where
  level : ∀ min, (g.level min).Agrees n (g'.level min)
  unary : g.unary.Agrees n g'.unary
  query : g.query.Agrees n g'.query
  arrayElements : g.arrayElements.Agrees n g'.arrayElements
  joined : g.joined.Agrees n g'.joined
  withClause : g.withClause.Agrees n g'.withClause

namespace Agrees

attribute [instance] level unary query arrayElements joined withClause

variable {g g' : Grammar}

/-- Nothing has to agree on texts that are shorter than the empty one. -/
theorem vacuous (h : g.Agrees n g') (other : Grammar) : g.Agrees 0 other :=
  ⟨fun min => (h.level min).vacuous _, h.unary.vacuous _, h.query.vacuous _,
    h.arrayElements.vacuous _, h.joined.vacuous _, h.withClause.vacuous _⟩

variable [h : g.Agrees n g'] [g.Agrees 0 g] [g'.Agrees 0 g']
include h

instance : g.expr.Agrees n g'.expr := .nested

instance : g.exprs.Agrees n g'.exprs := .separated

instance : g.closedQuery.Agrees n g'.closedQuery := .boolCases

instance : g.selection.Agrees n g'.selection := .boolCases

instance : g.having.Agrees n g'.having := .boolCases

instance : g.orderItem.Agrees n g'.orderItem := .bind

instance orderBy : g.orderBy.Agrees (n + 1) g'.orderBy := .after

instance : g.orderBy.Agrees n g'.orderBy := orderBy.lower

/-! ### Operators -/

instance [Akin op op'] : (g.quantified op).Agrees n (g'.quantified op') := .bind

instance isSuffix : g.isSuffix.Agrees (n + 1) g'.isSuffix := .boolCases

instance : g.inSuffix.Agrees (n + 1) g'.inSuffix := .bind

instance : g.betweenSuffix.Agrees (n + 1) g'.betweenSuffix := .bind

instance : g.escape.Agrees n g'.escape := .bind

instance : g.likeSuffix.Agrees (n + 1) g'.likeSuffix := .bind

instance (i : Nat) [Akin op op'] : (g.rightOperand i op).Agrees n (g'.rightOperand i op') := .bind

theorem suffix (i : Nat) (level : Level)
    (hword : ∀ word, level = .connective word → Lexeme.isWord word = true) :
    (g.suffix i level).Agrees (n + 1) (g'.suffix i level) := by
  cases level with
  | connective word =>
    have hword : IsWord word := ⟨hword word rfl⟩
    exact .after
  | negation => exact .reject
  | test => exact isSuffix
  | membership => exact .firstOf_cons
  | symbols label isQuantified allowed => exact .after

theorem suffixes (min : Nat) : List.Forall₂ (Rule.Agrees (n + 1))
    ((levels.zipIdx.drop min).reverse.map fun (level, i) => g.suffix i level)
    ((levels.zipIdx.drop min).reverse.map fun (level, i) => g'.suffix i level) := by
  refine forall₂_map_left_iff.2 (forall₂_map_right_iff.2 ?_)
  refine forall₂_same.2 fun ⟨level, i⟩ hm => suffix i level fun word hword => ?_
  have hlevel : level ∈ levels := fst_mem_of_mem_zipIdx (mem_of_mem_drop (mem_reverse.1 hm))
  exact isWord_of_mem (hword ▸ hlevel)

instance (min : Nat) : (g.anySuffix min).Agrees (n + 1) (g'.anySuffix min) :=
  .firstOf (suffixes min)

/-! Each operator starts with a token of its own. -/

omit h

instance consumes_isSuffix : g.isSuffix.Consumes := .foundCases

instance : g.inSuffix.Consumes := .later

instance : g.betweenSuffix.Consumes := .later

instance : g.likeSuffix.Consumes := .later

theorem consumes_suffix (i : Nat) (level : Level)
    (hword : ∀ word, level = .connective word → Lexeme.isWord word = true) :
    (g.suffix i level).Consumes := by
  cases level with
  | connective word =>
    have hword : IsWord word := ⟨hword word rfl⟩
    exact .bind
  | negation => exact .reject
  | test => exact consumes_isSuffix
  | membership => exact .firstOf_cons
  | symbols label isQuantified allowed => exact .bind

instance (min : Nat) : (g.anySuffix min).Consumes := by
  refine Consumes.firstOf fun rule hm => ?_
  obtain ⟨entry, hentry, rfl⟩ := mem_map.1 hm
  have hlevel : entry.1 ∈ levels := fst_mem_of_mem_zipIdx (mem_of_mem_drop (mem_reverse.1 hentry))
  have hword word (hword : entry.1 = .connective word) := isWord_of_mem (hword ▸ hlevel)
  exact ⟨(suffix entry.2 entry.1 hword).lower, consumes_suffix entry.2 entry.1 hword⟩

include h

instance operand [unary.Agrees (n + 1) unary'] (min : Nat) :
    (g.operand unary min).Agrees (n + 1) (g'.operand unary' min) := by
  unfold Grammar.operand
  split <;> infer_instance

instance operators [unary.Agrees (n + 1) unary'] (min : Nat) :
    (g.operators unary min).Agrees (n + 1) (g'.operators unary' min) := .start

/-! ### Calls -/

instance : g.frameBound.Agrees n g'.frameBound := .boolCases

instance : g.frame.Agrees n g'.frame := .bind

instance : g.partitionBy.Agrees n g'.partitionBy := .bind

instance : g.windowSpec.Agrees n g'.windowSpec := by
  refine .step fun _ _ hname => .step fun _ _ hpartition => .step fun _ _ horder =>
    .textStep (fun _ _ => .ofLike ?_) (.ofLike ?_)
  · rw [like_option] at hname
    rw [like_list] at hpartition horder
    simpa [like_placed, Placed.unplaced, WindowSpec.rewrite] using ⟨hname, hpartition, horder⟩
  · exact (inferInstance : Akin WindowSpec.mk WindowSpec.mk).like _ _ hname _ _ hpartition _ _ horder
      _ _ .none

instance : g.window.Agrees n g'.window := .bind

instance : g.argument.Agrees n g'.argument := .bind

instance {star star' : Bool} [Akin star star'] :
    (g.arguments star).Agrees n (g'.arguments star') := .cond

instance : g.filter.Agrees n g'.filter := .bind

instance : g.withinGroup.Agrees n g'.withinGroup := .bind

instance : g.functionCall.Agrees (n + 1) g'.functionCall :=
  .startStep fun _ _ => .each fun _ => .afterStep fun _ _ _ => .each fun _ => .each fun _ =>
    .each fun _ => .each fun _ => .bind

instance (word : String) [IsWord word] :
    (g.argumentAfter word).Agrees n (g'.argumentAfter word) := .boolCases

instance : g.substringArgs.Agrees n g'.substringArgs := by
  refine .step fun source source' hs => .step fun first first' hf =>
    .step fun second second' hsecond => ?_
  have hall : List.Forall₂ Like (first ++ second) (first' ++ second') := rel_append hf hsecond
  generalize first ++ second = rest at hall
  generalize first' ++ second' = rest' at hall
  cases hall with
  | nil => exact .reject
  | cons hab hrest => exact .ofLike (.cons hs (.cons hab hrest))

instance : g.positionArgs.Agrees n g'.positionArgs := .bind

instance : g.overlayArgs.Agrees n g'.overlayArgs := .bind

instance : g.trimArgs.Agrees n g'.trimArgs := .optionCases

instance {word word' : String} [hw : Akin word word'] :
    (g.keywordArgs word).Agrees n (g'.keywordArgs word') := by
  obtain rfl : word = word' := hw.like
  unfold Grammar.keywordArgs
  split <;> infer_instance

instance : g.keywordCall.Agrees (n + 1) g'.keywordCall := .start

/-! ### Operands -/

instance : g.parenthesized.Agrees (n + 1) g'.parenthesized := by
  refine .startStep fun start start' => .afterStep fun _ _ _ =>
    .optionStep (fun query query' hq => ?_) <|
    .step fun elements elements' he => .step fun _ _ _ => .step fun _ _ _ => ?_
  · have hq : Akin query query' := ⟨hq⟩
    infer_instance
  cases he with
  | nil => infer_instance
  | cons hinner hrest =>
    have hinner := Akin.mk hinner
    cases hrest with
    | nil => infer_instance
    | cons hab hrest =>
      have hab := Akin.mk hab
      have hrest := @Akin.mk (List Expr) _ _ _ hrest
      infer_instance

instance : g.caseOperand.Agrees n g'.caseOperand := .boolCases

instance : g.whenClause.Agrees n g'.whenClause := .bind

omit h in
instance : g.whenClause.Consumes := .bind

instance : g.otherwise.Agrees n g'.otherwise := .bind

instance : g.case.Agrees (n + 1) g'.case := .start

instance : g.castCall.Agrees (n + 1) g'.castCall := .start

instance : g.existsRow.Agrees (n + 1) g'.existsRow := .start

instance elements : g.elements.Agrees (n + 1) g'.elements := .after

instance : g.elements.Agrees n g'.elements := elements.lower

instance innerArray : g.innerArray.Agrees (n + 1) g'.innerArray := .start

instance : g.array.Agrees (n + 1) g'.array := .start

instance : g.row.Agrees (n + 1) g'.row := .start

instance : g.extract.Agrees (n + 1) g'.extract := .start

instance : g.primary.Agrees (n + 1) g'.primary := .optionCases

instance : g.subscript.Agrees (n + 1) g'.subscript := .after

omit h in
instance : g.subscript.Consumes := .bind

instance (start start' : Nat) {e e' : Expr} [Akin e e'] :
    (g.postfixStep start e).Agrees (n + 1) (g'.postfixStep start' e') := .boolCases

omit h in
instance (start : Nat) (e : Expr) : (g.postfixStep start e).Advances := .foundCases

instance : g.suffixed.Agrees (n + 1) g'.suffixed := .start

instance signed : g.signed.Agrees (n + 1) g'.signed := .start

/-! ### Relations -/

instance {isNatural isNatural' : Bool} {kind kind' : JoinKind}
    [Akin isNatural isNatural'] [Akin kind kind'] :
    (g.joinConstraint isNatural kind).Agrees n (g'.joinConstraint isNatural' kind') := .cond

instance relation : g.relation.Agrees (n + 1) g'.relation := .start

instance : g.relation.Agrees n g'.relation := relation.lower

instance : g.join.Agrees (n + 1) g'.join := .start

omit h in
instance : g.join.Consumes := .start

instance joins : g.joins.Agrees (n + 1) g'.joins := by
  refine .step fun first first' hfirst => .step fun joins joins' hjoins => .ofLike ?_
  induction hjoins generalizing first first' with
  | nil => exact hfirst
  | cons hj _ ih => exact ih _ _ (hj _ _ hfirst)

instance : g.joins.Agrees n g'.joins := joins.lower

instance : g.relations.Agrees n g'.relations := .separated

instance (word : String) [IsWord word] :
    (g.fromClause word).Agrees n (g'.fromClause word) := .boolCases

/-! ### Queries -/

instance : g.distinctOn.Agrees n g'.distinctOn := .bind

instance : g.distinct.Agrees n g'.distinct := .boolCases

instance : g.selectItem.Agrees n g'.selectItem := .start

instance : g.groupItem.Agrees n g'.groupItem := .start

instance : g.groupBy.Agrees n g'.groupBy := .boolCases

instance : g.namedWindow.Agrees n g'.namedWindow := .bind

instance : g.windows.Agrees n g'.windows := .boolCases

instance : g.select.Agrees (n + 1) g'.select :=
  .startStep fun _ _ => .afterStep fun _ _ _ => .each fun _ => .each fun _ => .each fun _ => .bind

instance values : g.values.Agrees (n + 1) g'.values := .start

instance : g.values.Agrees n g'.values := values.lower

omit h in
instance setStep {operand operand' : Rule SetExpr} [operand.Agrees n operand']
    [(oneOf words).Agrees n (oneOf words)] :
    (setStep words operand).Agrees n (setStep words operand') := .bind

omit h in
instance setChain {operand operand' : Rule SetExpr} [operand.Agrees n operand']
    [operand.Agrees 0 operand] [operand'.Agrees 0 operand']
    [(oneOf words).Consumes]
    [(oneOf words).Agrees n (oneOf words)] [(oneOf words).Agrees 0 (oneOf words)] :
    (Grammar.setChain words operand).Agrees n (Grammar.setChain words operand') := by
  have hreads : (Grammar.setStep words operand).Consumes := .bind
  have hreads' : (Grammar.setStep words operand').Consumes := .bind
  exact .start

instance : g.setTerm.Agrees (n + 1) g'.setTerm := .optionCases

instance : g.setExpr.Agrees (n + 1) g'.setExpr := setChain

instance : g.limitClause.Agrees (n + 1) g'.limitClause := .foundAfter

instance : g.offsetClause.Agrees (n + 1) g'.offsetClause := .after

instance [Akin limit limit'] [Akin offset offset'] :
    (g.limitStep limit offset).Agrees (n + 1) (g'.limitStep limit' offset') := .cond

instance (k : Nat) [Akin limit limit'] [Akin offset offset'] :
    (g.limits k limit offset).Agrees (n + 1) (g'.limits k limit' offset') := by
  induction k generalizing limit limit' offset offset' with
  | zero => exact .pure
  | succ k ih =>
    refine .optionStep (fun found found' hfound => ?_) .pure
    exact @ih _ _ _ _ ⟨hfound.1⟩ ⟨hfound.2⟩

instance {start start' : Nat} {withClause withClause' : Option With} [Akin withClause withClause'] :
    (g.queryBody start withClause).Agrees (n + 1) (g'.queryBody start' withClause') := .bind

/-! ### Statements that change rows -/

instance : g.returning.Agrees n g'.returning := .boolCases

instance : g.assignment.Agrees n g'.assignment := .start

instance : g.plainRows.Agrees n g'.plainRows := .bind

instance : g.insertSource.Agrees n g'.insertSource := .boolCases

instance : g.indexPredicate.Agrees n g'.indexPredicate := .bind

instance : g.conflictTarget.Agrees n g'.conflictTarget := .optionCases

instance : g.onConflict.Agrees n g'.onConflict :=
  .startStep fun _ _ => .each fun _ => .each fun _ => .bind

section Changes

variable {start start' : Nat} {withClause withClause' : Option With} [Akin withClause withClause']

instance : (g.insert start withClause).Agrees n (g'.insert start' withClause') :=
  .each fun _ => .each fun _ => .each fun _ => .each fun _ => .bind

instance : (g.update start withClause).Agrees n (g'.update start' withClause') :=
  .each fun _ => .step fun (_, _) (_, _) ⟨htable, hname⟩ =>
    have _table := Akin.mk htable
    have _name := Akin.mk hname
    .each fun _ => .each fun _ => .bind

instance : (g.delete start withClause).Agrees n (g'.delete start' withClause') := .bind

end Changes

/-! ### With clauses -/

instance {α : Type} [Likeness α] {change change' : Nat → Option With → Rule α}
    [∀ (start start' : Nat) (p : Twins (Option With)),
      (change start p.first).Agrees n (change' start' p.second)] :
    (g.nestedChange change).Agrees n (g'.nestedChange change') := .start

omit h in
theorem rowsOnly?_unplaced (query : Query) :
    rowsOnly? (query.rewrite .unplaced) = (rowsOnly? query).map (Values.rewrite .unplaced) := by
  obtain ⟨withClause, body, orderBy, limit, offset, locking, span⟩ := query
  simp only [Query.rewrite, With.rewriteOption_eq, OrderItem.rewriteList_eq, Expr.rewriteOption_eq]
  cases withClause <;> cases body <;> cases orderBy <;> cases limit <;> cases offset <;>
    simp [rowsOnly?, SetExpr.rewrite]

instance : g.cteBody.Agrees n g'.cteBody := by
  have hquery (query query' : Query) (hq : query.rewrite .unplaced = query'.rewrite .unplaced) :
      Rule.Agrees n (match rowsOnly? query with
        | some values => pure (CteBody.values values)
        | none => pure (CteBody.query query))
      (match rowsOnly? query' with
        | some values => pure (CteBody.values values)
        | none => pure (CteBody.query query')) := by
    have hrows : Like (rowsOnly? query) (rowsOnly? query') := by
      rw [like_option]
      show (rowsOnly? query).map (Values.rewrite .unplaced) =
        (rowsOnly? query').map (Values.rewrite .unplaced)
      rw [← rowsOnly?_unplaced, hq, rowsOnly?_unplaced]
    have hq : Akin query query' := ⟨hq⟩
    generalize rowsOnly? query = rows at hrows
    generalize rowsOnly? query' = rows' at hrows
    cases hrows with
    | none => exact .pure
    | some hvalues =>
      have hvalues := Akin.mk hvalues
      exact .pure
  refine .optionStep (fun _ _ hi => ?_) <| .optionStep (fun _ _ hu => ?_) <|
    .optionStep (fun _ _ hd => ?_) <| .step hquery
  · exact @Agrees.pure _ _ _ _ _ (@Akin.app _ _ _ _ _ _ _ _ _ ⟨hi⟩)
  · exact @Agrees.pure _ _ _ _ _ (@Akin.app _ _ _ _ _ _ _ _ _ ⟨hu⟩)
  · exact @Agrees.pure _ _ _ _ _ (@Akin.app _ _ _ _ _ _ _ _ _ ⟨hd⟩)

instance : g.cte.Agrees n g'.cte := .start

instance ctes : g.ctes.Agrees (n + 1) g'.ctes := .start

instance : g.fullQuery.Agrees (n + 1) g'.fullQuery := .start

/-! ### Statements -/

instance : g.changeHead.Agrees n g'.changeHead := .bind

instance : g.statement.Agrees n g'.statement := by
  refine .optionStep (fun _ _ ht => @Agrees.pure _ _ _ _ _ (@Akin.app _ _ _ _ _ _ _ _ _ ⟨ht⟩)) <|
    .startStep fun start start' => .optionStep (fun head head' hhead => ?_) .bind
  obtain ⟨withClause, kind⟩ := head
  obtain ⟨withClause', kind'⟩ := head'
  have hw : Akin withClause withClause' := ⟨hhead.1⟩
  obtain rfl : kind = kind' := hhead.2
  cases kind <;> exact .bind

omit h in
theorem within_succ {k l : Nat} [(within k).Agrees n (within l)] [(within k).Agrees 0 (within k)]
    [(within l).Agrees 0 (within l)] : (within (k + 1)).Agrees (n + 1) (within (l + 1)) :=
  ⟨fun min => operators min, signed, .nested, innerArray, joins, ctes⟩

end Agrees

/-! ## The whole grammar -/

instance agrees_zero (k : Nat) (other : Grammar) : (within k).Agrees 0 other := by
  induction k generalizing other with
  | zero =>
    have hself : (within 0).Agrees 0 (within 0) :=
      ⟨fun _ => .reject, .reject, .reject, .reject, .reject, .reject⟩
    exact hself.vacuous _
  | succ k ih =>
    have hself := ih (within k)
    exact (Agrees.within_succ (n := 0) (k := k) (l := k)).vacuous _

instance (text : String) (other : Grammar) : (ofText text).Agrees 0 other := agrees_zero _ _

/-- Grammars with room for all constructs of a text agree on it. -/
theorem agrees_within {n k l : Nat} (hk : n ≤ k) (hl : n ≤ l) : (within k).Agrees n (within l) := by
  induction k generalizing n l with
  | zero =>
    obtain rfl : n = 0 := Nat.le_zero.1 hk
    infer_instance
  | succ k ih =>
    cases n with
    | zero => infer_instance
    | succ n =>
      obtain ⟨l, rfl⟩ : ∃ j, l = j + 1 := ⟨l - 1, by omega⟩
      have hroom : (within k).Agrees n (within l) := ih (by omega) (by omega)
      exact Agrees.within_succ

end Grammar

end SqlTyping
