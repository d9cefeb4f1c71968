import SqlTyping.Proofs.Nesting.Names

/-!
# Expressions cover what they read

A rule for a part of the grammar covers what it reads if the rules for the constructs in it do. What
an operator adds to the operand before it is covered when the operand is.
-/

namespace SqlTyping

open Rule Survey Sketch
open Fold (sketch)

variable {α β : Type} {S : Survey}

/-- The rules for constructs inside of others cover what they read. -/
structure Grammar.Covered (S : Survey) (g : Grammar) : Prop where
  level : ∀ min, S.Covers here (g.level min) (sketch.expr ())
  unary : S.Covers here g.unary (sketch.expr ())
  query : S.Covers inside g.query (sketch.query id ())
  arrayElements : S.Gives here g.arrayElements fun e t =>
    isArray e = true ∧ S.Shows (sketch.expr ()) e t
  joined : S.Covers here g.joined (sketch.relation ())
  withClause : S.Covers here g.withClause (sketch.withClause ())

namespace Grammar

/-- What the suffix makes of an operand is covered by the operand and the sketch. -/
def Suffix.Adds (S : Survey) (suffix : Suffix) (t : Sketch) : Prop :=
  ∀ e span, S.reach ((sketch.expr () e).both t) ≤ S.reach (sketch.expr () (suffix e span))

theorem Suffix.Adds.same {suffix : Suffix}
    (h : ∀ e span, sketch.expr () (suffix e span) = sketch.expr () e) :
    suffix.Adds S .empty := fun e span => by rw [h]; simp

namespace Covered

variable {g : Grammar} (h : g.Covered S)

include h

theorem expr : S.Covers inside g.expr (sketch.expr ()) := (h.level 0).nested

/-- After an opening parenthesis: a query and the closing one, or nothing yet. -/
theorem closedQuery {next : Option Query → Rule β} {P : β → Sketch → Prop}
    (hsome : ∀ query, S.Runs here 0 (sketch.query id () query) (next (some query)) P)
    (hnone : S.Runs here 1 .empty (next none) P) :
    S.Runs here 1 .empty (g.closedQuery >>= next) P := by
  intro d a m i hd ha hcross
  have hclosed : S.Ensures (do
      let query ← g.query
      let _ ← punct ")"
      return query) d m fun query m' =>
        S.Crosses a i a m'.index (S.reach (sketch.query id () query)) := by
    refine (h.query d (a + 1) m m.index hd (Nat.succ_le_succ ha) (.refl _ _)).bind
      fun query m₁ hread => (ensures_closing (.inl rfl) a).bind fun _ m₂ hclose => .pure ?_
    obtain ⟨t, ht, hle⟩ := hread
    exact ((hcross.trans ht).trans hclose).mono (by simpa using hle)
  have hresult : S.Ensures g.closedQuery d m (S.Tried
      (fun query m' => S.Crosses a i a m'.index (S.reach (sketch.query id () query))) m) := by
    refine (Ensures.still (fun _ _ => rfl) fun _ => rfl).bind fun test m' hm => ?_
    subst hm
    exact .cond (fun _ => hclosed.maybe) fun _ => .pure ⟨rfl, Nat.le_refl _⟩
  refine hresult.bind fun result m' htried => ?_
  cases result with
  | none => exact hnone d a m' i hd ha (by rwa [htried.1])
  | some query => exact hsome query d a m' i hd ha htried

theorem rightOperand (i : Nat) (op : Operator) :
    S.Gives here (g.rightOperand i op) (Suffix.Adds S) :=
  (h.level (i + 1)).first fun _ => .pure fun _ _ => le_rfl

variable [S.IsPlain]

theorem exprs : S.Covers inside g.exprs (sketch.exprs ()) := by
  rw [Fold.exprs_eq]
  exact h.expr.separated

theorem guarded (word : String) [IsWord word] : S.Covers inside (do
      if ← found (keyword word) then return some (← g.expr) else return none) (sketch.expr? ()) := by
  rw [Fold.expr?_eq]
  exact .foundCases (h.expr.first fun _ => .pure le_rfl) (.pure le_rfl)

theorem selection : S.Covers inside g.selection (sketch.expr? ()) :=
  h.guarded "WHERE"

theorem orderItem : S.Covers inside g.orderItem (sketch.orderItem ()) :=
  h.expr.first fun _ => .pass fun _ => .pass fun _ =>
    .pure le_rfl

theorem orderBy : S.Covers inside g.orderBy (sketch.order ()) := by
  rw [Fold.order_eq]
  exact .pass fun _ => h.orderItem.separated

theorem selectItem : S.Covers inside g.selectItem (sketch.item ()) :=
  .pass fun _ => .foundCases (.spanFrom fun _ => .pure le_rfl) <|
    .passCases (fun _ => .spanFrom fun _ => .pure le_rfl) <|
      h.expr.first fun _ => .pass fun _ => .spanFrom fun _ => .pure le_rfl

/-! ## Operators -/

theorem quantified (op : Operator) : S.Gives here (g.quantified op) (Suffix.Adds S) :=
  .pass fun _ => .opening (.inl rfl) fun _ => h.closedQuery (fun _ => .pure fun _ _ => le_rfl)
    (h.expr.firstIn fun _ => .closing (.inl rfl) fun _ => .pure fun _ _ => le_rfl)

theorem isSuffix : S.Gives here g.isSuffix (Suffix.Adds S) :=
  .foundCases (.pure (.same fun _ _ => rfl)) <| .foundCases (.pure (.same fun _ _ => rfl)) <|
    .pass fun _ =>
      .pass fun _ =>
        .passCases (fun _ => .pure (.same fun _ _ => rfl)) <|
          .pass fun _ => (h.level comparisonLevel).first fun _ =>
            .pure fun _ _ => le_rfl

theorem inSuffix : S.Gives here g.inSuffix (Suffix.Adds S) := .pass fun _ => .pass
    fun _ => covers_paramRef.firstCases (fun _ => .pure fun _ _ => le_rfl) <|
      .opening (.inl rfl) fun _ => h.closedQuery (fun _ => .pure fun _ _ => le_rfl)
        (h.exprs.firstIn fun _ => .closing (.inl rfl) fun _ => .pure fun _ _ => le_rfl)

theorem betweenSuffix : S.Gives here g.betweenSuffix (Suffix.Adds S) := .pass fun _ =>
    .pass fun _ => .pass fun _ =>
      (h.level symbolLevel).first fun _ => .pass fun _ =>
        (h.level symbolLevel).add fun _ => .pure fun _ _ => le_rfl

theorem likeSuffix : S.Gives here g.likeSuffix (Suffix.Adds S) := by
  have hescape : S.Covers here (maybe g.escape) (sketch.expr? ()) := by
    rw [Fold.expr?_eq]
    exact Covers.maybe (.pass fun _ => h.level symbolLevel)
  exact .pass fun _ => .pass fun _ =>
    (h.level symbolLevel).first fun _ => hescape.add fun _ => .pure fun _ _ => le_rfl

theorem suffix (i : Nat) (level : Level)
    (hword : ∀ word, level = .connective word → Lexeme.isWord word = true) :
    S.Gives here (g.suffix i level) (Suffix.Adds S) := by
  cases level with
  | connective word =>
    have hword : IsWord word := ⟨hword word rfl⟩
    exact .pass fun _ => h.rightOperand i _
  | negation => exact .reject
  | test => exact h.isSuffix
  | membership =>
    refine Gives.firstOf fun rule hmem => ?_
    simp only [List.mem_cons, List.not_mem_nil, or_false] at hmem
    rcases hmem with rfl | rfl | rfl
    · exact h.inSuffix
    · exact h.betweenSuffix
    · exact h.likeSuffix
  | symbols label isQuantified allowed =>
    refine .pass fun token => .cond ?_ (h.rightOperand i _)
    refine Gives.maybeCases (h.quantified _) (fun _ => Nat.le_refl _) (fun suffix t ht => ?_)
      (h.rightOperand i _)
    exact .pure fun e span => le_trans (by simp) (ht e span)

theorem anySuffix (min : Nat) : S.Gives here (g.anySuffix min) (Suffix.Adds S) := by
  refine Gives.firstOf fun rule hmem => ?_
  obtain ⟨⟨level, i⟩, hlevel, rfl⟩ := List.mem_map.1 hmem
  refine h.suffix i level fun word hword => isWord_of_mem ?_
  rw [← hword]
  exact List.fst_mem_of_mem_zipIdx (List.mem_of_mem_drop (List.mem_reverse.1 hlevel))

theorem operand {unary : Rule Expr} (hu : S.Covers here unary (sketch.expr ())) (min : Nat) :
    S.Covers here (g.operand unary min) (sketch.expr ()) := by
  unfold Grammar.operand
  split
  · exact .pass fun _ => .passCases
      (fun _ => (h.level negationLevel).nested.out.first fun _ => .spanFrom fun _ => .pure le_rfl) hu
  · exact hu

theorem operators {unary : Rule Expr} (hu : S.Covers here unary (sketch.expr ())) (min : Nat) :
    S.Covers here (g.operators unary min) (sketch.expr ()) := by
  refine .pass fun start => (h.operand hu min).first fun first => Runs.grow fun left => ?_
  exact Gives.maybeCases (h.anySuffix min) (fun _ => Nat.le_refl _)
    (fun suffix t ht => .spanFrom fun _ => .pure (ht left _)) (.pure le_rfl)

/-! ## Windows -/

/-- What is read as a window frame is balanced. -/
theorem frame : S.Gives here g.frame fun _ _ => True := by
  have hbound : S.Gives here g.frameBound fun _ _ => True := .foundCases (.pure trivial) <|
      .foundCases (.pure trivial) <|
      .foundCases (.pure trivial) <|
      (h.level symbolLevel).first fun _ => .pass fun _ => .pure trivial
  have hend {t : Sketch} : S.Runs here 0 t (do
      let _ ← found frameExclusion
      return) fun _ _ => True := .pass fun _ => .pure trivial
  exact .pass fun _ => .foundCases (Gives.bind hbound (fun _ => Nat.le_refl _) fun _ _ _ =>
      .pass fun _ =>
        Gives.bind hbound (fun _ => Nat.le_refl _) fun _ _ _ => hend)
    (Gives.bind hbound (fun _ => Nat.le_refl _) fun _ _ _ => hend)

theorem windowSpec : S.Covers inside g.windowSpec (sketch.window ()) := by
  have hpartition : S.Covers inside g.partitionBy (sketch.exprs ()) := .pass fun _ => h.exprs
  refine .pass fun _ => hpartition.maybeD.first fun _ => h.orderBy.maybeD.add fun _ =>
    (Covers.textOf h.frame).maybe.add fun frame => .pure ?_
  cases frame <;> exact le_rfl

theorem window : S.Covers here g.window (sketch.window ()) := .pass fun _ => .passCases
    (fun _ => .pure bot_le) (Covers.parens h.windowSpec)

/-! ## Calls -/

theorem arguments (star : Bool) : S.Covers inside (g.arguments star) (sketch.exprs ()) := by
  have hone : S.Covers inside g.argument (sketch.expr ()) := .pass fun _ =>
      .pass fun _ => h.expr
  rw [Fold.exprs_eq]
  exact .cond (.pure le_rfl) hone.separated.maybeD

theorem withinGroup : S.Covers here g.withinGroup (sketch.order ()) :=
  .pass fun _ => Covers.parens h.orderBy

theorem filter : S.Covers here g.filter (sketch.expr ()) := .pass fun _ =>
    Covers.parens (.pass fun _ => h.expr)

omit [S.IsPlain] h in
/-- A call shows its arguments, whatever it is called. -/
theorem reach_args_le (name : ObjectName) (args : List Expr) : S.reach (sketch.exprs () args) ≤
      S.reach (if isPosition name then (sketch.exprs () args).inner else sketch.exprs () args) := by
  split
  · exact reach_le_inner _
  · exact le_rfl

theorem functionCall : S.Covers here g.functionCall (sketch.call ()) := by
  refine .pass fun start => .pass fun name =>
    .opening (.inl rfl) fun _ => .passIn fun _ => .passIn fun star =>
      (h.arguments star).firstIn fun args => h.orderBy.maybeD.addIn fun order =>
        .closing (.inl rfl) fun _ => h.withinGroup.maybeD.add fun groupOrder =>
          h.filter.maybe.add fun filter => h.window.maybe.add fun window =>
            .spanFrom fun _ => .pure ?_
  have horder : S.reach (sketch.order () (order ++ groupOrder)) =
      S.reach (sketch.order () order) ⊔ S.reach (sketch.order () groupOrder) := by
    rw [Fold.order_eq]
    exact reach_all_append order groupOrder
  rw [Shows, Fold.call, Fold.expr?_eq, Fold.window?_eq]
  simp only [reach_both, horder, sup_assoc]
  exact sup_le_sup_right (reach_args_le name args) _

theorem argumentAfter (word : String) [IsWord word] :
    S.Covers inside (g.argumentAfter word) (sketch.exprs ()) :=
  .foundCases (h.expr.first fun _ => .pure (by simp [Fold.exprs_eq, Fold.all])) (.pure le_rfl)

theorem substringArgs : S.Covers inside g.substringArgs (sketch.exprs ()) := by
  refine h.expr.first fun source => (h.argumentAfter "FROM").add fun first =>
    (h.argumentAfter "FOR").add fun second => ?_
  have hrest : S.reach (sketch.exprs () first) ⊔ S.reach (sketch.exprs () second) =
      S.reach (sketch.exprs () (first ++ second)) := by
    rw [Fold.exprs_eq, reach_all_append]
  generalize first ++ second = rest at hrest
  cases rest with
  | nil => exact .reject
  | cons e rest =>
    refine .pure ?_
    show S.reach _ ≤ S.reach ((sketch.expr () source).both (sketch.exprs () (e :: rest)))
    rw [reach_both, reach_both, reach_both, sup_assoc, hrest]

/-- The first argument of `POSITION` stands in brackets that are no level of nesting. -/
theorem positionArgs : S.Covers inside g.positionArgs fun args => (sketch.exprs () args).inner := by
  refine (h.level symbolLevel).inner.first fun needle =>
    .pass fun _ => h.expr.add fun haystack => .pure ?_
  show S.reach ((sketch.expr () needle).inner.both (sketch.expr () haystack)) ≤
    S.reach ((sketch.expr () needle).both (sketch.exprs () [haystack])).inner
  refine reach_sup_le (reach_inner_le (reach_le_left _ _)) (le_trans ?_ (reach_le_inner _))
  exact (reach_le_left _ (sketch.exprs () [])).trans (reach_le_right _ _)

theorem overlayArgs : S.Covers inside g.overlayArgs (sketch.exprs ()) := by
  refine h.expr.first fun target => .pass fun _ =>
    h.expr.add fun replacement => .pass fun _ =>
      h.expr.add fun start => (h.argumentAfter "FOR").add fun rest => .pure ?_
  show S.reach _ ≤ S.reach ((sketch.expr () target).both ((sketch.expr () replacement).both
    ((sketch.expr () start).both (sketch.exprs () rest))))
  simp only [reach_both, sup_assoc, le_refl]

theorem trimArgs : S.Covers inside g.trimArgs (sketch.exprs ()) := by
  have hone (source : Expr) : S.reach (sketch.expr () source) ≤ S.reach (sketch.exprs () [source]) :=
    reach_le_left _ (sketch.exprs () [])
  refine h.expr.firstCases (fun first => ?_) ?_
  · refine .foundCases (h.expr.add fun source => .pure ?_) <|
      .foundCases (h.expr.add fun characters => .pure ?_) (.pure (hone first))
    · show S.reach ((sketch.expr () first).both (sketch.expr () source)) ≤
        S.reach ((sketch.expr () source).both (sketch.exprs () [first]))
      rw [reach_both, sup_comm]
      exact sup_le_sup_left (hone first) _
    · exact sup_le_sup_left (hone characters) (S.reach (sketch.expr () first))
  · exact .foundCases (h.expr.first fun source => .pure (hone source)) .reject

theorem keywordArgs (word : String) (span : Span) :
    S.Covers inside (g.keywordArgs word) fun found =>
      if isPosition ⟨none, ⟨found.1, false, span⟩, span⟩ then (sketch.exprs () found.2).inner
      else sketch.exprs () found.2 := by
  unfold Grammar.keywordArgs
  split
  · exact h.substringArgs.first fun args => .pure (reach_args_le _ args)
  · exact h.positionArgs.first fun args => .pure le_rfl
  · exact h.overlayArgs.first fun args => .pure (reach_args_le _ args)
  · exact .pass fun name => h.trimArgs.first fun args => .pure (reach_args_le _ args)

theorem keywordCall : S.Covers here g.keywordCall (sketch.expr ()) := by
  refine .pass fun start => .pass fun word =>
    Covers.first (Covers.parens (h.keywordArgs word.value word.span)) fun found =>
      .spanFrom fun _ => .pure ?_
  exact reach_le_left _ ((sketch.order () []).both _)

/-! ## Operands -/

theorem parenthesized : S.Covers here g.parenthesized (sketch.expr ()) := by
  refine .pass fun start => .opening (.inl rfl) fun _ => h.closedQuery
    (fun _ => .spanFrom fun _ => .pure le_rfl) <| h.exprs.firstIn fun elements =>
      .closing (.inl rfl) fun _ => .spanFrom fun _ => ?_
  split
  · exact .pure (by simp [Fold.exprs_eq, Fold.all, Fold.expr])
  · exact .pure le_rfl

theorem case : S.Covers here g.case (sketch.expr ()) := by
  have hoperand : S.Covers inside g.caseOperand (sketch.expr? ()) := by
    rw [Fold.expr?_eq]
    exact .pass fun _ => .cond (.pure le_rfl) (h.expr.first fun _ => .pure le_rfl)
  have hwhen : S.Covers inside g.whenClause (sketch.test ()) := .pass fun _ => h.expr.first fun _ =>
      .pass fun _ => h.expr.add fun _ => .pure le_rfl
  have hwhens : S.Covers inside (plus g.whenClause) (sketch.tests ()) := by
    rw [Fold.tests_eq]
    exact hwhen.plus
  have hotherwise : S.Covers inside (maybe g.otherwise) (sketch.expr? ()) := by
    rw [Fold.expr?_eq]
    exact Covers.maybe (.pass fun _ => h.expr)
  exact .pass fun _ => .pass fun _ =>
    hoperand.out.first fun _ => hwhens.out.add fun _ => hotherwise.out.add fun _ =>
      .pass fun _ => .spanFrom fun _ => .pure (reach_both_assoc _ _ _).le

theorem existsRow : S.Covers here g.existsRow (sketch.expr ()) := .pass fun _ => .pass fun _ =>
    Covers.first (Covers.parens h.query) fun _ => .spanFrom fun _ => .pure le_rfl

theorem row : S.Covers here g.row (sketch.expr ()) := .pass fun _ => .pass fun _ =>
    Covers.first (Covers.parens h.exprs.maybeD) fun _ => .spanFrom fun _ => .pure le_rfl

theorem extract : S.Covers here g.extract (sketch.expr ()) := .pass fun _ => .pass fun _ =>
    .opening (.inl rfl) fun _ => .passIn fun _ =>
      .passIn fun _ => h.expr.firstIn fun _ =>
        .closing (.inl rfl) fun _ => .spanFrom fun _ => .pure le_rfl

/-- `[a, b]`; an array inside stands in brackets that are no level of nesting. -/
theorem elements : S.Covers here g.elements (sketch.elements ()) := by
  have hitem : S.Covers inside (firstOf [g.arrayElements, g.expr])
      fun e => if isArray e then (sketch.expr () e).inner else sketch.expr () e := by
    refine Gives.firstOf fun rule hmem => ?_
    simp only [List.mem_cons, List.not_mem_nil, or_false] at hmem
    rcases hmem with rfl | rfl
    · refine Gives.inner h.arrayElements (fun e t ht => ?_) fun e t ht => ?_
      · rw [Shows, if_pos ht.1]
        exact ht.2.trans (reach_le_inner _)
      · rw [Shows, if_pos ht.1]
        exact reach_inner_le ht.2
    · refine h.expr.mono fun e => ?_
      split
      · exact reach_le_inner _
      · exact le_rfl
  rw [Fold.elements_eq]
  exact .opening (.inr rfl) fun _ => hitem.separated.maybeD.firstIn fun _ =>
    .closing (.inr rfl) fun _ => .pure le_rfl

theorem innerArray : S.Gives here g.innerArray fun e t =>
    isArray e = true ∧ S.Shows (sketch.expr ()) e t :=
  .pass fun _ => h.elements.first fun _ => .spanFrom fun _ => .pure ⟨rfl, le_rfl⟩

theorem array : S.Covers here g.array (sketch.expr ()) := .pass fun _ => .pass fun _ =>
    h.elements.firstCases (fun _ => .spanFrom fun _ => .pure le_rfl) <|
      Covers.first (Covers.parens h.query) fun _ => .spanFrom fun _ => .pure le_rfl

/-- The operand is a level of its own, so that a bracket can still be opened in the type. -/
theorem castCall : S.Covers here g.castCall (sketch.expr ()) := by
  refine .pass fun start => .pass fun _ =>
    .opening (.inl rfl) fun _ => ?_
  have htype : S.Passes (fun _ => maxDepth - 1 + 1) dataType :=
    ⟨Runs.narrow (Passes.covers : S.Covers anywhere dataType _) fun _ => Nat.le_refl maxDepth⟩
  have hrest (operand : Expr) : S.Runs (fun _ => maxDepth - 1) 1 (sketch.expr () operand) (do
      let _ ← keyword "AS"
      let target ← dataType
      let _ ← punct ")"
      return .cast operand target (← spanFrom start)) (S.Shows (sketch.expr ())) :=
    .passIn fun _ =>
      .passIn fun _ => .closing (.inl rfl) fun _ => .spanFrom fun _ => .pure le_rfl
  intro d a m i hd ha hcross
  have hexpr : S.Ensures g.expr d m fun operand m' =>
      d < maxDepth ∧ S.Crosses a i (a + 1) m'.index (S.reach (sketch.expr () operand)) := by
    refine .guarded fun hlt => ?_
    refine (h.level 0 (d + 1) (a + 1) m m.index hlt (Nat.succ_le_succ ha) (.refl _ _)).mono
      fun operand m' hread => ?_
    obtain ⟨t, ht, hle⟩ := hread
    exact ⟨hlt, (hcross.trans ht).mono (by simpa using hle)⟩
  refine hexpr.bind fun operand m' hread => ?_
  obtain ⟨hlt, hcross'⟩ := hread
  exact hrest operand d a m' i hd (ha.trans (Nat.le_pred_of_lt hlt)) hcross'

theorem primary : S.Covers here g.primary (sketch.expr ()) := by
  refine Covers.firstCases (Gives.firstOf fun rule hmem => ?_) (fun _ => .pure le_rfl) (.fail _)
  simp only [List.mem_cons, List.not_mem_nil, or_false] at hmem
  rcases hmem with
    rfl | rfl | rfl | rfl | rfl | rfl | rfl | rfl | rfl | rfl | rfl | rfl | rfl | rfl | rfl
  · exact h.parenthesized
  · exact covers_paramRef.first fun _ => .pure le_rfl
  · exact Covers.mono Passes.covers fun _ => bot_le
  · exact h.case
  · exact h.castCall
  · exact h.existsRow
  · exact h.array
  · exact h.row
  · exact h.extract
  · exact Covers.mono Passes.covers fun _ => bot_le
  · exact Covers.mono Passes.covers fun _ => bot_le
  · exact h.keywordCall
  · exact Covers.mono Passes.covers fun _ => bot_le
  · exact h.functionCall.first fun _ => .pure le_rfl
  · exact Covers.mono Passes.covers fun _ => bot_le

theorem subscript : S.Covers here g.subscript fun found =>
    (sketch.expr? () found.1).both (sketch.expr? () found.2.1) := by
  rw [Fold.expr?_eq]
  refine .opening (.inr rfl) fun _ => h.expr.maybe.firstIn fun lower =>
    .passIn fun slice => ?_
  have hend (upper : Option Expr) : S.Runs here 1
      ((sketch.opt (sketch.expr ()) lower).both (sketch.opt (sketch.expr ()) upper)) (do
      let _ ← punct "]"
      if lower.isNone && !slice then reject else return (lower, upper, slice))
      (S.Shows fun found =>
        (sketch.opt (sketch.expr ()) found.1).both (sketch.opt (sketch.expr ()) found.2.1)) :=
    .closing (.inr rfl) fun _ => .cond .reject (.pure le_rfl)
  have hnone : S.Covers inside (pure none) (sketch.opt (sketch.expr ())) := .pure le_rfl
  exact .cond (h.expr.maybe.addIn hend) (hnone.addIn hend)

theorem postfixStep (start : Nat) (e : Expr) :
    S.Runs here 0 (sketch.expr () e) (g.postfixStep start e)
      fun result t => S.Shows (sketch.expr ()) (result.getD e) t := by
  refine .foundCases (.pass fun _ => .spanFrom fun _ => .pure le_rfl) <|
    h.subscript.addCases (fun _ => .spanFrom fun _ => .pure le_rfl) <|
    .passCases (fun _ => .spanFrom fun _ => .pure le_rfl) <| .foundCases (.pure le_rfl) <|
    .passCases (fun _ => h.unary.add fun _ => .spanFrom fun _ => .pure le_rfl) (.pure le_rfl)

theorem suffixed : S.Covers here g.suffixed (sketch.expr ()) :=
  .pass fun start => h.primary.first fun _ => .grow (h.postfixStep start)

theorem signed : S.Covers here g.signed (sketch.expr ()) := .pass fun _ => .passCases
    (fun _ => h.unary.nested.out.first fun _ => .spanFrom fun _ => .pure le_rfl) h.suffixed

end Covered

end Grammar

end SqlTyping
