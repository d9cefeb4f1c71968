import SqlTyping.Proofs.Nesting.Expressions

/-!
# Relations and queries cover what they read
-/

namespace SqlTyping.Grammar

open Rule Survey Sketch
open Fold (sketch)

variable {α β : Type} {S : Survey}

instance : S.Passes here noColumns :=
  ⟨.opening (.inl rfl) fun _ => .close (.inl rfl) fun _ => le_rfl⟩

variable [S.IsPlain]

/-- Operands with set operators between them. -/
theorem covers_setChain {operand : Rule SetExpr} (h : S.Covers here operand (sketch.setExpr () ()))
    {words : List (String × SetOperator)} [S.Passes here (oneOf words)] :
    S.Covers here (setChain words operand) (sketch.setExpr () ()) := by
  have hstep : S.Covers here (setStep words operand) fun step => sketch.setExpr () () step.2.2 :=
    .pass fun _ => .pass fun _ => h.first fun _ =>
      .pure le_rfl
  refine .pass fun start => h.first fun first => Runs.grow fun left => ?_
  exact hstep.addCases (fun _ => .spanFrom fun _ => .pure le_rfl) (.pure le_rfl)

namespace Covered

variable {g : Grammar} (h : g.Covered S)

include h

/-! ## Relations -/

theorem joinConstraint (isNatural : Bool) (kind : JoinKind) :
    S.Covers here (g.joinConstraint isNatural kind) (sketch.constraint ()) :=
  .cond (.pure le_rfl) <| .cond (.pure le_rfl) <| .foundCases
    (h.expr.out.first fun _ => .pure le_rfl) <| .foundCases
      (.pass fun _ => .pure le_rfl) (.pure le_rfl)

theorem relation : S.Covers here g.relation (sketch.relation ()) := by
  refine .pass fun start => .pass fun lateral => ?_
  refine Covers.firstCases (Covers.parens h.query)
    (fun _ => .pass fun _ => .spanFrom fun _ => .pure le_rfl) ?_
  refine h.functionCall.firstCases (fun _ => .pass fun _ =>
    .pass fun _ => .spanFrom fun _ => .pure le_rfl) ?_
  refine .cond (.fail _) (Covers.firstCases (Covers.parens h.joined.inner)
    (fun _ => .pass fun _ => .spanFrom fun _ => .pure le_rfl) ?_)
  exact Covers.mono Passes.covers fun _ => bot_le

/-- What a join makes of the relation before it is covered by that relation and the sketch. -/
def Joins (S : Survey) (join : Relation → Relation) (t : Sketch) : Prop :=
  ∀ left, S.reach ((sketch.relation () left).both t) ≤ S.reach (sketch.relation () (join left))

theorem join : S.Gives here g.join (Joins S) := .pass fun _ => .pass fun isNatural =>
    .pass fun kind => h.relation.first fun _ =>
      (h.joinConstraint isNatural kind).add fun _ => .spanFrom fun _ => .pure fun _ => le_rfl

theorem joins : S.Covers here g.joins (sketch.relation ()) := by
  have hall : S.Gives here (star g.join) fun joins t =>
      Joins S (fun first => joins.foldl (fun left join => join left) first) t := by
    refine Gives.star h.join (fun t ht left => reach_both_bot ht) (fun _ _ hjoin => hjoin) ?_
    intro join joins t u hjoin hjoins left
    have hrest := hjoins (join left)
    rw [reach_both] at hrest
    rw [reach_both, reach_both, ← sup_assoc]
    exact (sup_le_sup_right (hjoin left) _).trans hrest
  exact h.relation.first fun first => Gives.bind hall (fun _ => Nat.le_refl _) fun _ _ ht =>
    .pure (ht first)

theorem relations : S.Covers here g.relations (sketch.relations ()) := by
  rw [Fold.relations_eq]
  exact h.joins.separated

theorem fromClause (word : String) [IsWord word] :
    S.Covers here (g.fromClause word) (sketch.relations ()) :=
  .foundCases h.relations (.pure le_rfl)

/-! ## Queries -/

theorem distinct : S.Covers here g.distinct (sketch.quantity ()) := by
  have hon : S.Covers here g.distinctOn (sketch.exprs ()) := .pass fun _ => Covers.parens h.exprs
  exact .foundCases (.pure le_rfl) <| .foundCases
      (hon.firstCases (fun _ => .pure le_rfl) (.pure le_rfl)) (.pure le_rfl)

theorem groupBy : S.Covers here g.groupBy (sketch.exprs ()) := by
  have hitem : S.Covers here g.groupItem (sketch.expr ()) :=
    .pass fun _ => .foundCases (.spanFrom fun _ => .pure le_rfl) h.expr.out
  rw [Fold.exprs_eq]
  exact .foundCases (.pass fun _ => hitem.separated) (.pure le_rfl)

theorem windows : S.Covers here g.windows (sketch.windows ()) := by
  have hone : S.Covers here g.namedWindow (sketch.namedWindow ()) := .pass fun _ => .pass fun _ =>
      Covers.first (Covers.parens h.windowSpec) fun _ => .pure le_rfl
  rw [Fold.windows_eq]
  exact .foundCases hone.separated (.pure le_rfl)

theorem items : S.Covers here (separated "," g.selectItem) (sketch.items ()) := by
  rw [Fold.items_eq]
  exact h.selectItem.out.separated

theorem select : S.Covers here g.select (sketch.select ()) := .pass fun _ => .pass fun _ =>
    h.distinct.first fun _ => h.items.maybeD.add fun _ =>
    (h.fromClause "FROM").add fun _ => h.selection.out.add fun _ =>
    h.groupBy.add fun _ => (h.guarded "HAVING").out.add fun _ => h.windows.add fun _ =>
    .spanFrom fun _ => .pure (by simp only [Shows, Fold.select, reach_both, sup_assoc, le_refl])

theorem values : S.Covers here g.values (sketch.values ()) := by
  have hrows : S.Covers here (separated "," (parens g.exprs)) (sketch.rows ()) := by
    rw [Fold.rows_eq]
    exact Covers.separated (Covers.parens h.exprs)
  exact .pass fun _ => .pass fun _ =>
    hrows.first fun _ => .spanFrom fun _ => .pure le_rfl

theorem setTerm : S.Covers here g.setTerm (sketch.setExpr () ()) :=
  h.select.firstCases (fun _ => .pure le_rfl) <| h.values.firstCases (fun _ => .pure le_rfl) <|
    Covers.first (Covers.parens h.query) fun _ => .pure le_rfl

theorem setExpr : S.Covers here g.setExpr (sketch.setExpr () ()) :=
  covers_setChain (covers_setChain h.setTerm)

theorem limitClause : S.Covers here g.limitClause (sketch.expr? ()) := by
  rw [Fold.expr?_eq]
  exact .foundCases (.foundCases (.pure le_rfl) (h.expr.out.first fun _ => .pure le_rfl)) <|
    .pass fun _ => .pass fun _ =>
      h.expr.out.maybe.first fun _ => .pass fun _ =>
        .pass fun _ => .pure le_rfl

theorem offsetClause : S.Covers here g.offsetClause (sketch.expr ()) :=
  .pass fun _ => h.expr.out.first fun _ =>
    .pass fun _ => .pure le_rfl

/-- A limit and an offset. -/
abbrev ofBounds (bounds : Option Expr × Option Expr) : Sketch :=
  (sketch.expr? () bounds.1).both (sketch.expr? () bounds.2)

theorem offsetStep (limit offset : Option Expr) :
    S.Runs here 0 (ofBounds (limit, offset)) (do
      match ← if offset.isNone then maybe g.offsetClause else pure none with
      | some value => return some (limit, some value)
      | none => return none) fun result t => S.Shows ofBounds (result.getD (limit, offset)) t := by
  cases offset with
  | some value => exact .pure le_rfl
  | none =>
    refine h.offsetClause.addCases (fun value => .pure ?_) (.pure le_rfl)
    exact reach_sup_le (reach_sup_le (reach_le_left _ _) bot_le) (reach_le_right _ _)

theorem limitStep (limit offset : Option Expr) :
    S.Runs here 0 (ofBounds (limit, offset)) (g.limitStep limit offset) fun result t =>
      S.Shows ofBounds (result.getD (limit, offset)) t := by
  cases limit with
  | some value => exact h.offsetStep _ _
  | none =>
    refine h.limitClause.addCases (fun found => .pure ?_) (h.offsetStep _ _)
    exact reach_sup_le (reach_sup_le bot_le (reach_le_right _ _)) (reach_le_left _ _)

theorem limits (n : Nat) (limit offset : Option Expr) :
    S.Runs here 0 (ofBounds (limit, offset)) (g.limits n limit offset) (S.Shows ofBounds) := by
  induction n generalizing limit offset with
  | zero => exact .pure le_rfl
  | succ n ih =>
    intro d a m i hd ha hcross
    refine (h.limitStep limit offset d a m i hd ha hcross).bind fun result m' hread => ?_
    obtain ⟨t, ht, hshows⟩ := hread
    cases result with
    | none => exact .pure ⟨t, ht, hshows⟩
    | some bounds => exact ih bounds.1 bounds.2 d a m' i hd ha (ht.mono hshows)

theorem queryBody (start : Nat) (withClause : Option With) :
    S.Runs here 0 (sketch.with? () withClause) (g.queryBody start withClause)
      (S.Shows (sketch.query id ())) := by
  have hbounds : S.Covers here (g.limits 3 none none) ofBounds :=
    (h.limits 3 none none).weaken bot_le
  refine h.setExpr.add fun _ => h.orderBy.out.maybeD.add fun _ => hbounds.add fun _ =>
    .pass fun _ => .spanFrom fun _ => .pure ?_
  exact ((reach_both_assoc (Sketch.both _ _) _ _).trans (reach_both_assoc _ _ _)).le

end Covered

end SqlTyping.Grammar
