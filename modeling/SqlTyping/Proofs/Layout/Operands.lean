import SqlTyping.Proofs.Layout.Operators

/-!
# Layouts of operands

Calls, literals, names, what stands in parentheses, and the operators before or after one operand.
None of these has a level.
-/

namespace SqlTyping.Grammar

open Rule Survey Layout
open Fold (layout params)

variable {S : Survey} {b d : Nat}

/-! ## Rules without expressions -/

theorem lays_baseWindow : S.Lays 0 1 baseWindow (S.laid ofIdent) :=
  .reads fun _ => lays_ident.add fun _ =>
    .ifPeeked (.done (by simp +contextual)) <| .ifPeeked (.done (by simp +contextual)) <|
    .ifPeeked (.done (by simp +contextual)) .reject

theorem lays_functionName : S.Lays 0 1 functionName (S.laid ofName) := by
  have hword : S.Lays 0 1 (do
      let start ← begin
      let word ← oneOf [("LEFT", "left"), ("RIGHT", "right")]
      return ObjectName.mk none ⟨word.value, false, word.span⟩ (← spanFrom start))
        (S.laid ofName) :=
    .begin fun _ => (Lays.oneOf (by decide)).add fun word =>
      .spanned (t := .both .empty (leaf word.span)) (fun _ => rfl) (by simp +contextual)
  exact .reads fun _ => lays_objectName.addCases (fun _ => .done (by simp +contextual)) hword.rest

theorem lays_literal : S.Lays 0 1 literal S.Bare := .beginBare fun _ => Lays.consumes.passCases
    (fun _ => .bare (fun _ => rfl) (by simp +contextual)) (.fail _)

theorem lays_current : S.Lays 0 1 current S.Bare :=
  .beginBare fun _ => (Lays.oneOf (by decide)).pass fun _ => .look fun _ =>
    .bare (fun _ => rfl) (by simp +contextual)

theorem lays_defaultValue : S.Lays 0 1 defaultValue S.Bare :=
  fun _ _ _ => (Lays.keyword "DEFAULT").bind (by omega) fun _ _ hto hspan =>
    .pure ⟨hto, ⟨hspan.1, stands_nil⟩, rfl⟩

theorem lays_typedString : S.Lays 0 1 typedString S.Bare :=
  .beginBare fun _ => lays_dataType.add fun _ => .skip fun _ =>
    .bare (fun _ => rfl) (by simp +contextual)

/-! ## Columns -/

theorem lays_finishedPart : S.Lays 0 1 finishedPart (S.laid ofIdent) := by
  intro d m hm
  refine lays_label.bind (by omega) fun part m₁ hto₁ hpart =>
    .isTolerant (.cond (fun _ => ?_) fun _ => ?_)
  · exact .cond (fun _ => .reject) fun _ => .pure ⟨hto₁, hpart⟩
  · exact .pure ⟨hto₁, hpart⟩

/-- The name of a column, which more names may follow if it is not missing. -/
structure ColumnPart (S : Survey) (part : Ident × Bool) (i : Nat) (m : S.Spot) : Prop where
  last : (Layout.node (.columnName part.1) part.1.span .empty).Fits S m.deep i m.index
  more : part.2 = true → S.laid ofIdent (fun _ => []) part.1 i m

theorem lays_columnPart : S.Lays 0 1 columnPart (ColumnPart S) := by
  intro d m hm
  refine (Lays.punct ".").bind (by omega) fun _ m₁ hto₁ _ => ?_
  refine Lays.stable.bind (by omega) fun _ m₂ hto₂ _ =>
    .cond (fun _ => .reject) fun _ => ?_
  refine lays_finishedPart.maybeCases (by omega) (fun part m₃ hto₃ hpart => ?_) fun m₃ hto₃ => ?_
  · refine .pure ⟨by omega, ?_, fun _ => hpart.imp_left (·.mono (by omega))⟩
    obtain ⟨i, j, hspan, hi, hlt, hj⟩ := hpart.1.exists_of_leaf
    dsimp only
    rw [hspan]
    exact .node trivial (by omega) (.inl hlt) .empty
  · refine .isTolerant (.cond (fun htolerant => ?_) fun _ => .reject)
    refine .position (.pure ⟨by omega, ?_, nofun⟩)
    exact .node (i := m₃.index) (j := m₃.index) trivial (by omega) (.inr ⟨htolerant, rfl⟩) .empty

theorem lays_column : S.Lays 0 1 column S.Bare := by
  intro d m hm
  refine Ensures.begin fun m₀ hto₀ => ?_
  refine lays_ident.bind (by omega) fun first m₁ hto₁ hfirst => ?_
  refine lays_columnPart.maybeCases (by omega) (fun part m₂ hto₂ hsecond => ?_) fun m₂ hto₂ => ?_
  · obtain ⟨second, more⟩ := part
    cases more with
    | false =>
      refine .spanFrom (by omega) (.pure ⟨by omega, ⟨.group (by omega) ?_, stands_nil⟩, rfl⟩)
      exact .both .empty (.both (hfirst.1.mono (by omega)) (hsecond.last.mono (by omega)))
    | true =>
      refine lays_columnPart.maybeCases (by omega) (fun part m₃ hto₃ hthird => ?_) fun m₃ hto₃ => ?_
      · refine .spanFrom (by omega) (.pure ⟨by omega, ⟨.group (by omega) ?_, stands_nil⟩, rfl⟩)
        exact .both (hfirst.1.mono (by omega))
          (.both ((hsecond.more rfl).1.mono (by omega)) (hthird.last.mono (by omega)))
      · refine .spanFrom (by omega) (.pure ⟨by omega, ⟨.group (by omega) ?_, stands_nil⟩, rfl⟩)
        exact .both .empty (.both (hfirst.1.mono (by omega)) (hsecond.last.mono (by omega)))
  · exact .spanFrom (by omega) (.pure
      ⟨by omega, ⟨.group (by omega) (.both .empty (hfirst.1.mono (by omega))), stands_nil⟩, rfl⟩)

namespace Laid

variable {g : Grammar}

/-! ## Windows and calls -/

theorem orderItem (h : g.Laid S b) : S.Lays b 1 g.orderItem (S.kept (·.orderItem ())) :=
  .reads fun _ => h.expr.add fun _ => .look fun _ => .look fun _ =>
    .done (by simp +contextual [Fold.orderItem])

theorem orderBy (h : g.Laid S (b + 1)) : S.Lays b 1 g.orderBy (S.kept (·.order ())) := by
  simp only [Fold.order_eq, kept_all]
  exact .reads fun _ => .skip fun _ =>
    (h.orderItem.separated ",").rest

theorem partitionBy (h : g.Laid S (b + 1)) : S.Lays b 1 g.partitionBy (S.kept (·.exprs ())) :=
  .reads fun _ => .skip fun _ => h.exprs.rest

theorem windowSpec (h : g.Laid S (b + 1)) : S.Lays b 0 g.windowSpec (S.kept (·.window ())) := by
  have := h.agrees
  exact .reads fun _ => lays_baseWindow.maybe.add fun _ => (h.partitionBy.maybeD rfl rfl).add fun _ =>
    (h.orderBy.maybeD rfl rfl).add fun _ => 
    (@Lays.stable _ _ _ Agrees.anyText Agrees.textOf).maybe.pass fun _ =>
    .done (by simp +contextual [Fold.window])

theorem window (h : g.Laid S (b + 1)) : S.Lays b 1 g.window (S.kept (·.window ())) :=
  .reads fun _ => .keyword "OVER" <| lays_ident.addCases
    (fun _ => .done (by simp +contextual [Fold.window, Fold.exprs, Fold.order]))
    (Lays.parens (b := b) (h.windowSpec.past (by omega))).rest

theorem argument (h : g.Laid S b) : S.Lays b 1 g.argument (S.kept (·.expr ())) :=
  .reads fun _ => .look fun _ => .look fun _ => h.expr.rest

theorem arguments (h : g.Laid S b) (star : Bool) :
    S.Lays b 0 (g.arguments star) (S.kept (·.exprs ())) := by
  unfold Grammar.arguments
  split
  · exact .pure fun _ => ⟨.empty, stands_nil⟩
  · simp only [Fold.exprs_eq, kept_all]
    exact ((h.argument.separated ",").maybeD rfl rfl)

theorem withinGroup (h : g.Laid S (b + 1)) : S.Lays b 1 g.withinGroup (S.kept (·.order ())) :=
  .reads fun _ => .skip fun _ =>
    (Lays.parens (b := b) (h.orderBy.past (by omega))).rest

theorem filter (h : g.Laid S (b + 1)) : S.Lays b 1 g.filter (S.kept (·.expr ())) := by
  have hwhere : S.Lays (b + 1) 1 (do
      let _ ← keyword "WHERE"
      g.expr) (S.kept (·.expr ())) :=
    .reads fun _ => .keyword "WHERE" h.expr.rest
  exact .reads fun _ => .keyword "FILTER" hwhere.parens.rest

theorem functionCall (h : g.Laid S (b + 1)) : S.Lays b 1 g.functionCall (S.kept (·.call ())) :=
  .begin fun _ => lays_functionName.add fun _ => .punct "(" <|
    .look fun _ => .look fun star => (h.arguments star).add fun _ =>
    (h.orderBy.maybeD rfl rfl).add fun _ =>
    .punct ")" <|
    (h.withinGroup.maybeD rfl rfl).add fun _ => (maybeExpr h.filter).add fun _ =>
    h.window.maybe.add fun _ => .spanned (fun _ => rfl)
      (by simp +contextual [Fold.order_eq, Fold.window?_eq])

/-! ## Functions with keywords between their arguments -/

theorem argumentAfter (h : g.Laid S (b + 1)) (word : String) [IsWord word] :
    S.Lays b 0 (g.argumentAfter word) (S.kept (·.exprs ())) :=
  .reads fun _ => .ifFound
    (h.expr.add fun _ => .done (by simp +contextual [Fold.exprs])) (.nil rfl rfl)

theorem substringArgs (h : g.Laid S b) : S.Lays b 1 g.substringArgs (S.kept (·.exprs ())) := by
  refine .reads fun _ => h.expr.add fun source =>
    (h.past.argumentAfter "FROM").add fun first =>
    (h.past.argumentAfter "FOR").add fun second => ?_
  split
  · exact .reject
  · exact .done (by simp +contextual [all, Fold.exprs_eq])

theorem positionArgs (h : g.Laid S b) : S.Lays b 1 g.positionArgs (S.kept (·.exprs ())) :=
  .reads fun _ => (h.operand_of_level symbolLevel).add fun _ => .keyword "IN" <|
    h.expr.add fun _ => .done (by simp +contextual [Fold.exprs])

theorem overlayArgs (h : g.Laid S b) : S.Lays b 1 g.overlayArgs (S.kept (·.exprs ())) :=
  .reads fun _ => h.expr.add fun _ => .keyword "PLACING" <| h.expr.add fun _ =>
    .keyword "FROM" <| h.expr.add fun _ =>
    (h.past.argumentAfter "FOR").add fun _ =>
    .done (by simp +contextual [Fold.exprs])

theorem trimArgs (h : g.Laid S b) : S.Lays b 0 g.trimArgs (S.kept (·.exprs ())) := by
  refine .reads fun _ => (maybeExpr h.expr).add fun first =>
    .ifFound (h.expr.add fun _ => ?_) ?_
  all_goals cases first with
  | none => first | exact .reject | exact .done (by simp +contextual [Fold.exprs])
  | some source => ?_
  · exact .done (by simp +contextual [Fold.exprs, Fold.expr?])
  · exact .ifFound (h.expr.add fun _ => .done
        (by simp +contextual [Fold.exprs, Fold.expr?]))
      (.done (by simp +contextual [Fold.exprs, Fold.expr?]))

theorem keywordArgs (h : g.Laid S b) (word : String) : S.Lays b 0 (g.keywordArgs word)
      (S.kept fun f call => f.exprs () call.2) := by
  unfold Grammar.keywordArgs
  split
  · exact .reads fun _ => h.substringArgs.add fun _ => .done (by simp +contextual)
  · exact .reads fun _ => h.positionArgs.add fun _ => .done (by simp +contextual)
  · exact .reads fun _ => h.overlayArgs.add fun _ => .done (by simp +contextual)
  · exact .reads fun _ => .look fun _ => h.trimArgs.add fun _ =>
      .done (by simp +contextual)

theorem keywordCall (h : g.Laid S (b + 1)) : S.Lays b 1 g.keywordCall S.Bare := by
  have hname {span : Span} {deep lo hi : Nat} (hword : (leaf span).Fits S deep lo hi) :
      (group span (.both .empty (leaf span))).Fits S deep lo hi := by
    obtain ⟨i, j, rfl, hi, hlt, hj⟩ := hword.exists_of_leaf
    exact .group (by omega) (.both .empty (.leaf (by omega)))
  exact .beginBare fun _ => (Lays.anyOf _ (by decide)).add fun word =>
    (h.keywordArgs word.value).parens.add fun _ => .bare (fun _ => rfl)
      (by simp +contextual [ofName, ofIdent, opt, hname, Fold.order, Fold.expr?, Fold.window?])

/-! ## Operands -/

theorem parenthesized (h : g.Laid S (b + 1)) : S.Lays b 1 g.parenthesized S.Bare := by
  refine .beginBare fun _ => .punct "(" <| h.closedQuery.add fun query => ?_
  cases query with
  | some query => exact .bare (fun _ => rfl) (by simp +contextual [opt])
  | none =>
    refine h.exprs.add fun elements => .punct ")" ?_
    rcases elements with _ | ⟨inner, _ | ⟨_, _⟩⟩
    · exact .bare (fun _ => rfl) (by simp +contextual)
    · exact .bare (fun _ => rfl) (by simp +contextual [Fold.exprs])
    · exact .bare (fun _ => rfl) (by simp +contextual [Fold.exprs])

theorem whenClause (h : g.Laid S (b + 1)) : S.Lays b 1 g.whenClause (S.kept (·.test ())) :=
  .reads fun _ => .keyword "WHEN" <| h.expr.add fun _ => .keyword "THEN" <|
    h.expr.add fun _ => .done (by simp +contextual [Fold.test])

theorem otherwise (h : g.Laid S (b + 1)) : S.Lays b 1 g.otherwise (S.kept (·.expr ())) :=
  .reads fun _ => .keyword "ELSE" h.expr.rest

theorem caseOperand (h : g.Laid S b) : S.Lays b 0 g.caseOperand (S.kept (·.expr? ())) :=
  .reads fun _ => .ifPeeked (.nil rfl rfl)
    (h.expr.add fun _ => .done (by simp +contextual [Fold.expr?]))

theorem case (h : g.Laid S (b + 1)) : S.Lays b 1 g.case S.Bare :=
  .beginBare fun _ => .keyword "CASE" <| h.caseOperand.add fun _ =>
    h.whenClause.plus.add fun _ => (maybeExpr h.otherwise).add fun _ =>
    .keyword "END" <|
    .bare (fun _ => rfl) (by simp +contextual [Fold.tests_eq])

theorem castCall (h : g.Laid S (b + 1)) : S.Lays b 1 g.castCall S.Bare :=
  .beginBare fun _ => .keyword "CAST" <| .punct "(" <| h.expr.add fun _ =>
    .keyword "AS" <| lays_dataType.add fun _ => .punct ")" <|
    .bare (fun _ => rfl) (by simp +contextual)

theorem existsRow (h : g.Laid S (b + 1)) : S.Lays b 1 g.existsRow S.Bare :=
  .beginBare fun _ => .keyword "EXISTS" <| (Lays.parens (b := b) h.query).add fun _ =>
    .bare (fun _ => rfl) (by simp +contextual)

theorem elements (h : g.Laid S (b + 1)) : S.Lays b 1 g.elements (S.kept (·.elements ())) := by
  have hitem : S.Lays (b + 1) 1 (firstOf [g.arrayElements, g.expr])
      (S.kept (·.expr ())) := by
    refine Lays.firstOf ?_
    simp only [List.forall_mem_cons]
    exact ⟨h.arrayElements, h.expr, nofun⟩
  simp only [Fold.elements_eq, kept_all]
  exact .reads fun _ => .punct "[" <|
    ((hitem.separated ",").maybeD rfl rfl).add fun _ => .punct "]" <|
    .done (by simp +contextual)

theorem innerArray (h : g.Laid S (b + 1)) : S.Lays b 1 g.innerArray (S.kept (·.expr ())) :=
  .begin fun _ => h.elements.add fun _ => .spanned (fun _ => rfl) (by simp +contextual)

theorem array (h : g.Laid S (b + 1)) : S.Lays b 1 g.array S.Bare :=
  .beginBare fun _ => .keyword "ARRAY" <| h.elements.addCases
    (fun _ => .bare (fun _ => rfl) (by simp +contextual))
    ((Lays.parens (b := b) h.query).add fun _ =>
      .bare (fun _ => rfl) (by simp +contextual))

theorem row (h : g.Laid S (b + 1)) : S.Lays b 1 g.row S.Bare :=
  .beginBare fun _ => .keyword "ROW" <| (Lays.parens (b := b) (h.exprs.maybeD rfl rfl)).add fun _ =>
    .bare (fun _ => rfl) (by simp +contextual)

theorem extract (h : g.Laid S (b + 1)) : S.Lays b 1 g.extract S.Bare :=
  .beginBare fun _ => .keyword "EXTRACT" <| .punct "(" <|
    .look fun _ => .keyword "FROM" <| h.expr.add fun _ =>
    .punct ")" <| .bare (fun _ => rfl) (by simp +contextual)

theorem primary (h : g.Laid S (b + 1)) : S.Lays b 1 g.primary S.Bare := by
  have hparam : S.Lays b 1 (do return Expr.param (← paramRef)) S.Bare :=
    fun _ _ _ => lays_paramRef.bind (by omega) fun _ _ hto href => .pure ⟨hto, href, rfl⟩
  have hcall : S.Lays b 1 (do return Expr.function (← g.functionCall)) S.Bare :=
    fun _ _ _ => h.functionCall.bind (by omega) fun _ _ hto hcall => .pure ⟨hto, hcall, rfl⟩
  have hrules : S.Lays b 1 (firstOf [g.parenthesized, do return .param (← paramRef), literal,
      g.case, g.castCall, g.existsRow, g.array, g.row, g.extract, current, defaultValue,
      g.keywordCall, typedString, do return .function (← g.functionCall), column]) S.Bare := by
    refine Lays.firstOf ?_
    simp only [List.forall_mem_cons]
    exact ⟨h.parenthesized, hparam, lays_literal.past (by omega), h.case, h.castCall, h.existsRow,
      h.array,
      h.row, h.extract, lays_current.past (by omega), lays_defaultValue.past (by omega),
        h.keywordCall,
      (lays_typedString.past (by omega)), hcall, lays_column.past (by omega), nofun⟩
  exact fun _ _ _ => hrules.maybeCases (by omega) (fun _ _ hto hread => .pure ⟨hto, hread⟩)
    fun _ _ => .fail _

/-! ## Operators before or after one operand -/

/-- The bounds of a subscript. -/
def bounds {β : Type} (f : Fold Unit β) : Option Expr × Option Expr × Bool → β
  | (lower, upper, _) => f.both (f.expr? () lower) (f.expr? () upper)

theorem subscript (h : g.Laid S (b + 1)) : S.Lays b 1 g.subscript (S.kept bounds) := by
  refine .reads fun _ => .punct "[" <| (maybeExpr h.expr).add fun _ =>
    .look fun _ => .cond
      ((maybeExpr h.expr).add fun _ => .punct "]" <| .cond .reject
        (.done (by simp +contextual [bounds])))
      (.punct "]" <| .cond .reject <|
        .done (by simp +contextual [bounds, Fold.expr?]))

theorem lays_fieldOf (e : Expr) : S.Lays 0 1 (fieldOf e) (S.laid ofIdent) :=
  .reads fun _ => .cond (lays_dotted lays_label).rest .reject

theorem lays_collation : S.Lays 0 1 collation (S.laid ofName) :=
  .reads fun _ => .keyword "COLLATE" lays_objectName.rest

/-- Each operator after an operand gives an operand that reaches further. -/
theorem postfixStep (h : g.Laid S (b + 1)) {start m : S.Spot} {e : Expr} (hm : b ≤ m.index)
    (he : start.To 1 m ∧ S.Bare e start.index m) :
    S.Ensures (g.postfixStep (S.offset start.index) e) d m
      (S.Grows (fun e m' => start.To 1 m' ∧ S.Bare e start.index m')
        (fun e m' => start.To 1 m' ∧ S.Bare e start.index m') e m) := by
  obtain ⟨hto, hread⟩ := he
  obtain ⟨hfits, hrefs⟩ := hread.fits
  refine (Lays.punct "::").foundCases (by omega) (fun m₁ hto₁ => ?_) fun m₁ hto₁ => ?_
  · refine lays_dataType.bind (by omega) fun target m₂ hto₂ htarget => ?_
    exact .spanFrom (by omega) (.pure ⟨by omega, by omega, ⟨.group (by omega)
      (.both (hfits.mono (by omega)) (htarget.1.mono (by omega))), hrefs⟩, rfl⟩)
  refine h.subscript.maybeCases (by omega) (fun ⟨lower, upper, slice⟩ m₂ hto₂ hbounds => ?_)
    fun m₂ hto₂ => ?_
  · refine .spanFrom (by omega) (.pure
      ⟨by omega, by omega, ⟨.group (by omega) (.both (hfits.mono (by omega))
      (hbounds.1.mono (by omega))), ?_⟩, rfl⟩)
    simpa [bounds, Fold.expr] using And.intro hrefs hbounds.2
  refine (lays_fieldOf e).maybeCases (by omega) (fun name m₃ hto₃ hname => ?_) fun m₃ hto₃ => ?_
  · exact .spanFrom (by omega) (.pure ⟨by omega, by omega, ⟨.group (by omega)
      (.both (hfits.mono (by omega)) (.both (hname.1.mono (by omega)) .empty)), hrefs⟩, rfl⟩)
  refine lays_collation.foundCases (by omega) (fun m₄ hto₄ => ?_) fun m₄ hto₄ => ?_
  · exact .pure ⟨by omega, by omega, ⟨hfits.mono (by omega), hrefs⟩, hread.bare⟩
  refine (Lays.keywords ["AT", "TIME", "ZONE"]).maybeCases (by omega)
    (fun span m₅ hto₅ hspan => ?_)
    fun m₅ hto₅ => .pure ⟨by omega, ⟨hfits.mono (by omega), hrefs⟩, hread.bare⟩
  refine h.unary.bind (by omega) fun zone m₆ hto₆ hzone => ?_
  refine .spanFrom (by omega) (.pure ⟨by omega, by omega, ⟨.node ?_ (by omega) (.inl (by omega)) ?_,
      stands_append.2 ⟨hrefs, hzone.fits.2⟩⟩, rfl⟩)
  · exact nofun
  · exact .both (hfits.mono (by omega))
      (.both (hspan.1.mono (by omega)) (hzone.fits.1.mono (by omega)))

theorem suffixed (h : g.Laid S (b + 1)) : S.Lays b 1 g.suffixed S.Bare := by
  intro d m hm
  refine Ensures.begin fun m₀ hto₀ => ?_
  refine h.primary.bind (by omega) fun first m₁ hto₁ hfirst => ?_
  have hgrow : S.Ensures (grow (g.postfixStep (S.offset m₀.index)) first) d m₁ fun e m' =>
      m₀.To 1 m' ∧ S.Bare e m₀.index m' :=
    .grow (fun e m' he => h.postfixStep (by omega) he) ⟨hto₁, hfirst⟩
  exact hgrow.mono fun e m₂ hread =>
    ⟨by omega, hread.2.fits.imp_left (·.mono (by omega)), hread.2.bare⟩

theorem signed (h : g.Laid S (b + 1)) : S.Lays b 1 g.signed S.Bare := by
  intro d m hm
  refine Ensures.begin fun m₀ hto₀ => ?_
  refine (Lays.operatorWhere "expression" isSign).maybeCases (by omega)
    (fun op m₁ hto₁ ⟨hop, hsign⟩ => ?_) fun m₁ hto₁ => ?_
  · refine h.unary.nested.bind (by omega) fun operand m₂ hto₂ hoperand => ?_
    refine .spanFrom (by omega) (.pure
      ⟨by omega, ⟨.group (by omega) (.both (hop.leaf.mono (by omega))
      (hoperand.fits.1.mono (by omega))), hoperand.fits.2⟩, ?_⟩)
    exact if_neg fun hnot => by rw [show op.value = "NOT" from hnot] at hsign; cases hsign
  · refine (h.suffixed d m₁ (by omega)).mono fun e m₂ hread => ?_
    exact ⟨by omega, hread.2.fits.imp_left (·.mono (by omega)), hread.2.bare⟩

end Laid

end SqlTyping.Grammar
