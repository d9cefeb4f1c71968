import SqlTyping.Proofs.Layout.Operands

/-!
# Layouts of queries

Relations with their joins, the clauses of a query, and set operations.
-/

namespace SqlTyping.Grammar

open Rule Survey Layout
open Fold (layout params)

variable {S : Survey} {b d : Nat} {j start i : Nat} {words : List (String × SetOperator)}
  {operand : Rule SetExpr} {limit offset : Option Expr} {m : S.Spot}

/-! ## Rules without expressions -/

theorem lays_tableAlias : S.Lays 0 1 tableAlias (S.laid ofAlias) :=
  .reads fun _ => lays_asName.add fun _ => (lays_identList.maybeD rfl rfl).add fun _ =>
    .done (by simp +contextual [ofAlias])

theorem lays_qualifiedStar : S.Lays 0 1 qualifiedStar (S.laid ofName) :=
  .reads fun _ => lays_objectName.add fun _ => .punct "." <| .punct "*" <|
    .done (by simp +contextual)

theorem lays_lockedTables : S.Lays 0 1 lockedTables (S.laid (.all ofName)) :=
  .reads fun _ => .keyword "OF" (lays_objectName.separated ",").forget.rest

theorem lays_locking : S.Lays 0 1 locking (S.laid ofLocking) :=
  .begin fun _ => .keyword "FOR" <| .look fun _ =>
    (lays_lockedTables.maybeD rfl rfl).add fun tables => .look fun _ =>
    .spanned (t := .all ofName tables) (fun _ => rfl) (by simp +contextual)

@[simp] theorem fits_aliased {deep lo hi : Nat} {inside : Layout} {asName : Option TableAlias} :
    (layout.aliased inside asName).Fits S deep lo hi ↔
      inside.Fits S deep lo hi ∧ (opt ofAlias asName).Fits S deep lo hi := by
  cases asName <;> exact fits_both

theorem reads_table {s : Layout} {refs : List ParamRef} :
    S.Reads b j start s refs (table start) 1 (S.kept (·.relation ())) :=
  .look fun _ => lays_objectName.add fun name => .look fun _ =>
    lays_tableAlias.maybe.add fun asName =>
      .spanned (t := layout.aliased (ofName name) asName) (fun _ => rfl) (by simp +contextual)

namespace Laid

variable {g : Grammar} (h : g.Laid S (b + 1))
include h

/-! ## Relations -/

theorem joinConstraint (isNatural : Bool) (kind : JoinKind) :
    S.Lays b 0 (g.joinConstraint isNatural kind) (S.kept (·.constraint ())) :=
  .reads fun _ => .cond (.nil rfl rfl) <| .cond (.nil rfl rfl) <|
    .ifFound
      (h.expr.add fun _ => .done (by simp +contextual [Fold.constraint])) <|
    .ifFound
      (lays_identList.add fun _ => .done (by simp +contextual [Fold.constraint]))
      (.nil rfl rfl)

theorem relation : S.Lays b 1 g.relation (S.kept (·.relation ())) :=
  .begin fun _ => .look fun _ =>
    (Lays.parens (b := b) h.query).addCases (fun _ => lays_tableAlias.maybe.add fun _ =>
      .spanned (fun _ => rfl) (by simp +contextual)) <|
    h.functionCall.addCases (fun _ => .look fun _ =>
      lays_tableAlias.maybe.add fun _ => .spanned (fun _ => rfl) (by simp +contextual)) <|
    .cond (.fail _) <|
    (Lays.parens (b := b) h.joined).addCases (fun _ => lays_tableAlias.maybe.add fun _ =>
      .spanned (fun _ => rfl) (by simp +contextual)) reads_table

/-- What a join adds to the relation on its left. -/
def Joins (S : Survey) (join : Relation → Relation) (i : Nat) (m : S.Spot) : Prop :=
  ∃ (added : Layout) (refs : List ParamRef), added.Fits S m.deep i m.index ∧ S.Stands refs ∧
    ∀ left, layout.relation () (join left) = (layout.relation () left).both added ∧
      params.relation () (join left) = params.relation () left ++ refs

theorem join : S.Lays b 1 g.join (Joins S) := by
  intro d m hm
  refine Ensures.begin fun m₀ hto₀ => ?_
  refine Lays.stable.bind (by omega) fun isNatural m₁ hto₁ _ => ?_
  refine Lays.consumes.bind (by omega) fun kind m₂ hto₂ _ => ?_
  refine h.relation.bind (by omega) fun right m₃ hto₃ hright => ?_
  refine (h.joinConstraint isNatural kind).bind (by omega) fun constraint m₄ hto₄ hconstraint => ?_
  refine .spanFrom (by omega) (.pure ⟨by omega, _,
    params.relation () right ++ params.constraint () constraint, ?_,
    stands_append.2 ⟨hright.2, hconstraint.2⟩, fun left => ⟨rfl, rfl⟩⟩)
  exact .group (by omega) (.both (hright.1.mono (by omega)) (hconstraint.1.mono (by omega)))

theorem joins : S.Lays b 1 g.joins (S.kept (·.relation ())) := by
  have hwidens : Lays.Widens (Joins S) := by
    rintro join i m i' m' hi hto ⟨added, refs, hadded, hrest⟩
    exact ⟨added, refs, hadded.mono (by omega), hrest⟩
  intro d m hm
  refine h.relation.bind (by omega) fun first m₁ hto₁ hfirst => ?_
  refine (h.join.starOf hwidens).bind (by omega) fun joins m₂ hto₂ hjoins => .pure ⟨by omega, ?_⟩
  -- each join puts its own part beside the relation on its left
  have hfold : ∀ left : Relation, (layout.relation () left).Fits S m₂.deep m.index m₂.index →
      S.Stands (params.relation () left) →
      S.kept (·.relation ()) (joins.foldl (fun left join => join left) left) m.index
        m₂ := by
    clear hfirst
    induction joins with
    | nil => exact fun left hleft hrefs => ⟨hleft, hrefs⟩
    | cons join joins ih =>
      intro left hleft hrefs
      obtain ⟨added, refs, hadded, hstand, heq⟩ := hjoins join (.head _)
      refine ih (fun join hmem => hjoins join (.tail _ hmem)) _ ?_ ?_
      · rw [(heq left).1]
        exact .both hleft (hadded.mono (by omega))
      · rw [(heq left).2]
        exact stands_append.2 ⟨hrefs, hstand⟩
  exact hfold first (hfirst.1.mono (by omega)) hfirst.2

theorem relations : S.Lays b 1 g.relations (S.kept (·.relations ())) := by
  simp only [Fold.relations_eq, kept_all]
  exact h.joins.separated ","

/-! ## Clauses of a query -/

theorem distinct : S.Lays b 0 g.distinct (S.kept (·.quantity ())) := by
  have hon : S.Lays b 1 g.distinctOn (S.kept (·.exprs ())) :=
    .reads fun _ => .keyword "ON" (Lays.parens (b := b) h.exprs).rest
  exact .reads fun _ => .ifFound (.nil rfl rfl) <| .ifFound
      (hon.addCases (fun _ => .done (by simp +contextual [Fold.quantity]))
        (.nil rfl rfl))
      (.nil rfl rfl)

omit h in
theorem selectItem (h : g.Laid S b) : S.Lays b 1 g.selectItem (S.kept (·.item ())) :=
  .begin fun _ => .ifFound (.spanned (fun _ => rfl) (by simp [opt])) <|
    lays_qualifiedStar.addCases
      (fun _ => .spanned (fun _ => rfl) (by simp +contextual [opt])) <|
    h.expr.add fun _ => lays_asName.maybe.add fun _ =>
    .spanned (fun _ => rfl) (by simp +contextual)

theorem fromClause (word : String) [IsWord word] :
    S.Lays b 0 (g.fromClause word) (S.kept (·.relations ())) :=
  .reads fun _ => .ifFound h.relations.rest (.nil rfl rfl)

omit h in
theorem groupItem (h : g.Laid S b) : S.Lays b 1 g.groupItem (S.kept (·.expr ())) :=
  .begin fun _ => .ifFound
    (.spanned (fun _ => rfl) (by simp [Fold.exprs])) h.expr.rest

theorem groupBy : S.Lays b 0 g.groupBy (S.kept (·.exprs ())) := by
  simp only [Fold.exprs_eq, kept_all]
  exact .reads fun _ => .ifFound
    (.look fun _ => (h.groupItem.separated ",").rest)
    (.nil rfl rfl)

theorem having : S.Lays b 0 g.having (S.kept (·.expr? ())) :=
  .reads fun _ => .ifFound
    (h.expr.add fun _ => .done (by simp +contextual [Fold.expr?])) (.nil rfl rfl)

theorem namedWindow : S.Lays b 1 g.namedWindow (S.kept (·.namedWindow ())) :=
  .reads fun _ => lays_ident.add fun _ => .keyword "AS" <|
    (Lays.parens (b := b) (h.windowSpec.past (by omega))).add fun _ =>
    .done (by simp +contextual [Fold.namedWindow])

theorem windows : S.Lays b 0 g.windows (S.kept (·.windows ())) := by
  simp only [Fold.windows_eq, kept_all]
  exact .reads fun _ => .ifFound
    (h.namedWindow.separated ",").rest (.nil rfl rfl)

theorem select : S.Lays b 1 g.select (S.kept (·.select ())) :=
  .begin fun _ => .keyword "SELECT" <| h.distinct.add fun _ =>
    ((h.selectItem.separated ",").maybeD rfl rfl).add fun _ =>
    (h.fromClause "FROM").add fun _ => h.selection.add fun _ => h.groupBy.add fun _ =>
    h.having.add fun _ => h.windows.add fun _ =>
    .spanned (fun _ => rfl) (by simp +contextual [Fold.items_eq])

theorem values : S.Lays b 1 g.values (S.kept (·.values ())) :=
  .begin fun _ => .keyword "VALUES" <|
    (Lays.separated "," (Lays.parens (b := b) h.exprs)).add fun _ =>
    .spanned (fun _ => rfl)
      (by simp +contextual [Fold.rows_eq, Fold.exprs_eq])

/-! ## Set operations -/

theorem setTerm : S.Lays b 1 g.setTerm (S.kept (·.setExpr () ())) :=
  .reads fun _ => h.select.addCases
    (fun _ => .done (by simp +contextual [Fold.setExpr])) <|
    h.values.addCases (fun _ => .done (by simp +contextual [Fold.setExpr])) <|
    (Lays.parens (b := b) h.query).add fun _ =>
    .done (by simp +contextual [Fold.setExpr])

omit h in
theorem lays_setStep (hwords : ∀ entry ∈ words, entry.1 ≠ "")
    (h : S.Lays b 1 operand (S.kept (·.setExpr () ()))) :
    S.Lays b 1 (setStep words operand)
      (S.kept fun f step => f.setExpr () () step.2.2) :=
  .reads fun _ => (Lays.oneOf hwords).pass fun _ => .look fun _ =>
    h.add fun _ => .done (by simp +contextual)

omit h in
theorem lays_setChain (hwords : ∀ entry ∈ words, entry.1 ≠ "")
    (h : S.Lays b 1 operand (S.kept (·.setExpr () ()))) :
    S.Lays b 1 (setChain words operand) (S.kept (·.setExpr () ())) := by
  intro d m hm
  refine Ensures.begin fun m₀ hto₀ => ?_
  refine h.bind (by omega) fun first m₁ hto₁ hfirst => ?_
  refine Ensures.grow (I := fun body m' => m₀.To 1 m' ∧
    S.kept (·.setExpr () ()) body m₀.index m') ?_
    ⟨hto₁, hfirst⟩
  rintro body m₂ ⟨hto₂, hbody⟩
  refine (lays_setStep hwords h).maybeCases (by omega) (fun ⟨op, all, right⟩ m₃ hto₃ hright => ?_)
    fun m₃ hto₃ => .pure ⟨by omega, hbody.imp_left (·.mono (by omega))⟩
  exact .spanFrom (by omega) (.pure ⟨by omega, by omega, .group (by omega)
    (.both (hbody.1.mono (by omega)) (hright.1.mono (by omega))),
    stands_append.2 ⟨hbody.2, hright.2⟩⟩)

theorem setExpr : S.Lays b 1 g.setExpr (S.kept (·.setExpr () ())) :=
  lays_setChain (by decide) (lays_setChain (by decide) h.setTerm)

/-! ## Clauses after a set operation -/

theorem limitClause : S.Lays b 1 g.limitClause (S.kept (·.expr? ())) :=
  .reads fun _ => .ifFound (.ifFound (.nil rfl rfl) <| h.expr.add fun _ =>
      .done (by simp +contextual [Fold.expr?])) <|
    .keyword "FETCH" <| .look fun _ => (maybeExpr h.expr).add fun _ => .look fun _ =>
    .look fun _ => .done (by simp +contextual)

theorem offsetClause : S.Lays b 1 g.offsetClause (S.kept (·.expr ())) :=
  .reads fun _ => .keyword "OFFSET" <| h.expr.add fun _ => .look fun _ =>
    .done (by simp +contextual)

/-- The limit and the offset of a query. -/
def limitAndOffset {β : Type} (f : Fold Unit β) : Option Expr × Option Expr → β
  | (limit, offset) => f.both (f.expr? () limit) (f.expr? () offset)

theorem offsetStep (offset : Option Expr) {m₁ : S.Spot} (hm : b ≤ m.index ∧ i ≤ m.index)
    (hto₁ : m.To 0 m₁) (hlimit : S.kept (·.expr? ()) limit i m) :
    S.Ensures (do
      match ← if offset.isNone then maybe g.offsetClause else pure none with
      | some value => return some (limit, some value)
      | none => return none) d m₁ fun result m' =>
        m.To 0 m' ∧ S.kept (fun f => f.opt (limitAndOffset f)) result i m' := by
  refine .cond (fun _ => ?_) fun _ => .pure ⟨hto₁, .empty, stands_nil⟩
  exact h.offsetClause.maybeCases (by omega) (fun value m₂ hto₂ hvalue => .pure
      ⟨by omega, .both (hlimit.1.mono (by omega)) (hvalue.1.mono (by omega)),
        stands_append.2 ⟨hlimit.2, hvalue.2⟩⟩)
    fun m₂ hto₂ => .pure ⟨by omega, .empty, stands_nil⟩

theorem limitStep (hm : b ≤ m.index ∧ i ≤ m.index)
    (hfits : S.kept limitAndOffset (limit, offset) i m) :
    S.Ensures (g.limitStep limit offset) d m fun result m' =>
      m.To 0 m' ∧ S.kept (fun f => f.opt (limitAndOffset f)) result i m' := by
  have hspans := fits_both.1 hfits.1
  have hrefs := stands_append.1 hfits.2
  refine .cond (fun _ => ?_) fun _ => h.offsetStep offset hm (by omega) ⟨hspans.1, hrefs.1⟩
  exact h.limitClause.maybeCases (by omega) (fun limit m₁ hto₁ hlimit => .pure
      ⟨by omega, .both (hlimit.1.mono (by omega)) (hspans.2.mono (by omega)),
        stands_append.2 ⟨hlimit.2, hrefs.2⟩⟩)
    fun m₁ hto₁ => h.offsetStep offset hm (by omega) ⟨hspans.1, hrefs.1⟩

theorem limits (n : Nat) (hm : b ≤ m.index ∧ i ≤ m.index)
    (hfits : S.kept limitAndOffset (limit, offset) i m) :
    S.Ensures (g.limits n limit offset) d m fun result m' =>
      m.To 0 m' ∧ S.kept limitAndOffset result i m' := by
  induction n generalizing limit offset m with
  | zero => exact .pure ⟨by omega, hfits⟩
  | succ n ih =>
    refine (h.limitStep hm hfits).bind fun result m₁ ⟨hto₁, hresult⟩ => ?_
    cases result with
    | none => exact .pure ⟨hto₁, hfits.imp_left (·.mono (by omega))⟩
    | some result => exact (ih (by omega) hresult).mono fun _ m₂ hread => ⟨by omega, hread.2⟩

theorem queryBody {withClause : Option With} :
    S.Reads b j start (layout.with? () withClause) (params.with? () withClause)
      (g.queryBody start withClause) 1 (S.kept (·.query id ())) := by
  have hlimits : S.Lays b 0 (g.limits 3 none none) (S.kept limitAndOffset) :=
    fun d m hm => h.limits 3 ⟨hm, Nat.le_refl _⟩ ⟨.both .empty .empty, stands_nil⟩
  exact h.setExpr.add fun _ => (h.orderBy.maybeD rfl rfl).add fun _ => hlimits.add fun _ =>
    lays_locking.star.add fun _ =>
    .spanned (fun _ => rfl) (by simp +contextual [limitAndOffset])

end Laid

end SqlTyping.Grammar
