import SqlTyping.Proofs.Layout.Names
import SqlTyping.Proofs.Params.Occurrences

/-!
# Layouts of operator expressions

An operand takes the operators that follow it one by one. What has been read up to some place can
stand to the left of every operator that follows there: the right operand of its last operator has
taken all that bind tighter. That nothing tighter follows is known of the grammar that read the
right operand, which has less room than the one around it, so it has to be carried over by
`Rule.Agrees`, and holds only as long as nesting does not go too deep.
-/

namespace SqlTyping

open Grammar Layout Rule List
open Fold (layout params)

variable {S : Survey} {b d : Nat} {m : S.Spot} {unary : Rule Expr}

namespace Survey

variable {j i n k : Nat} {op : Operator}

/-- What is read lies in the text, and its parameters stand there. -/
abbrev kept {α : Type} (S : Survey) (of : {β : Type} → Fold Unit β → α → β) :
    α → Nat → S.Spot → Prop := S.laid (of layout) (of params)

section

variable {α : Type} (of : {β : Type} → Fold Unit β → α → β)

theorem kept_all : (S.kept fun f => f.all (of f)) =
    S.laid (.all (of layout)) (·.flatMap (of params)) := by
  rw [kept, Fold.all_layout, Fold.all_params]

theorem kept_opt : (S.kept fun f => f.opt (of f)) =
    S.laid (.opt (of layout)) (·.toList.flatMap (of params)) := by
  rw [kept, Fold.opt_layout, Fold.opt_params]

end

/-- An operator of level `j` follows at the index and is read in some state of no more depth. -/
def Follows (S : Survey) (j d i : Nat) : Prop :=
  ∃ level ctx c, levels[j]? = some level ∧ ctx.tolerant = S.tolerant ∧ ctx.depth ≤ d ∧
    c.mark = S.mark i ∧ c.tooDeep = none ∧ ((ofText S.text).suffix j level ctx c).1 ≠ none

theorem Follows.mono {d' : Nat} (h : S.Follows j d i) (hd : d ≤ d') : S.Follows j d' i := by
  obtain ⟨level, ctx, c, hlevel, htolerant, hdepth, hrest⟩ := h
  exact ⟨level, ctx, c, hlevel, htolerant, Nat.le_trans hdepth hd, hrest⟩

/-- The expression can stand to the left of what follows it. -/
def Leads (S : Survey) (d : Nat) (e : Expr) (m : S.Spot) : Prop :=
  m.deep = 0 → ∀ j, S.Follows j d m.index → e.FitsLeft j

/-- What is read at level `min` or tighter: no operator that it could take follows. -/
structure Operated (S : Survey) (min d : Nat) (e : Expr) (i : Nat) (m : S.Spot) : Prop where
  fits : S.kept (·.expr ()) e i m
  tight : ∀ own, e.level? = some own → min ≤ own
  ends : m.deep = 0 → ∀ j, S.Follows j d m.index → j < min

/-- What is read without binary operators. -/
structure Bare (S : Survey) (e : Expr) (i : Nat) (m : S.Spot) : Prop where
  fits : S.kept (·.expr ()) e i m
  bare : e.level? = none

/-- What an operator of level `j` has made of its left operand. -/
structure Attached (S : Survey) (j d : Nat) (e : Expr) (i : Nat) (m : S.Spot) : Prop where
  fits : S.kept (·.expr ()) e i m
  level : e.level? = some j
  leads : S.Leads d e m

/-- An operator of level `j` that has been read from the index on makes a node of every left operand
that fits. -/
def Attaches (S : Survey) (j d : Nat) (suffix : Suffix) (i : Nat) (m : S.Spot) : Prop :=
  ∀ ⦃start left⦄, start < i → (layout.expr () left).Fits S m.deep start i → S.Stands left.params →
    (m.deep = 0 → left.FitsLeft j) →
    S.Attached j d (suffix left (S.span start m.index)) start m

theorem Lays.beginBare {next : Nat → Rule Expr}
    (h : ∀ start, S.Reads b 0 start .empty [] (next start) k S.Bare) :
    S.Lays b k (Rule.begin >>= next) S.Bare :=
  beginAt h fun hle hread =>
    ⟨hread.fits.imp_left (·.mono (by omega)), hread.bare⟩

namespace Reads

variable {j k start : Nat} {s t : Layout} {refs more : List ParamRef}

theorem bare {f : Span → Expr} [Past k 0 (j + 1)]
    (hof : ∀ span, (layout.expr () (f span), (f span).params, (f span).level?) =
      (.group span t, more, none))
    (h : S.Makes s refs t more) :
    S.Reads b (j + 1) start s refs (spanFrom start >>= fun span => Pure.pure (f span)) k
      S.Bare := by
  refine ended h fun {span _ _} hfits hstands => ?_
  obtain ⟨hgroup, hrest⟩ := Prod.mk.inj (hof span)
  obtain ⟨hrefs, hlevel⟩ := Prod.mk.inj hrest
  rw [← hgroup] at hfits
  rw [← hrefs] at hstands
  exact ⟨⟨hfits, hstands⟩, hlevel⟩

/-- All parts to the right of an operator have been read. -/
theorem attach {suffix : Suffix} {level : Nat} [hk : Past k 0 (j + 1)]
    (hof : ∀ left span, (layout.expr () (suffix left span), (suffix left span).params,
      (suffix left span).level?, (suffix left span).FitsLeft) =
        (.group span ((layout.expr () left).both t), left.params ++ more, some level, fun _ => True))
    (h : S.Makes s refs t more) :
    S.Reads b (j + 1) start s refs (Pure.pure suffix) k
      fun suffix i m => ∀ d, S.Attaches level d suffix i m := by
  have hle := hk.le
  intro d m₀ m hm hstart hto hs hrefs
  obtain ⟨hfits, hstands⟩ := h _ _ _ hs hrefs
  refine .pure ⟨by omega, fun d start left hlt hl hr _ => ?_⟩
  have hnode := hof left (S.span start m.index)
  simp only [Prod.mk.injEq] at hnode
  obtain ⟨hgroup, hparams, hlevel, hleft⟩ := hnode
  have hall := stands_append.2 ⟨hr, hstands⟩
  rw [← hparams] at hall
  refine ⟨⟨?_, hall⟩, hlevel, fun _ l _ => of_eq_true (congrFun hleft l)⟩
  show Fits S _ _ _ (layout.expr () _)
  rw [hgroup]
  exact .group (by omega) (.both (hl.mono (by omega)) (hfits.mono (by omega)))

end Reads

end Survey

/-- The rules of the grammar lay out what they read, past the index `b`. -/
structure Grammar.Laid (S : Survey) (b : Nat) (g : Grammar) : Prop where
  agrees : g.Agrees 0 g
  level : ∀ (min d : Nat) (m : S.Spot), b ≤ m.index →
    S.Ensures (g.level min) d m fun e m' => m.To 1 m' ∧ S.Operated min d e m.index m'
  unary : S.Lays b 1 g.unary S.Bare
  query : S.Lays b 1 g.query (S.kept (·.query id ()))
  arrayElements : S.Lays b 1 g.arrayElements (S.kept (·.expr ()))
  joined : S.Lays b 1 g.joined (S.kept (·.relation ()))
  withClause : S.Lays b 1 g.withClause (S.kept (·.withClause ()))

namespace Grammar.Laid

open Survey

variable {g : Grammar}

theorem past (h : g.Laid S b) : g.Laid S (b + 1) where
  agrees := h.agrees
  level := fun min d m hm => h.level min d m (by omega)
  unary := h.unary.past (by omega)
  query := h.query.past (by omega)
  arrayElements := h.arrayElements.past (by omega)
  joined := h.joined.past (by omega)
  withClause := h.withClause.past (by omega)

theorem operand_of_level (h : g.Laid S b) (min : Nat) :
    S.Lays b 1 (g.level min) (S.kept (·.expr ())) :=
  fun d m hm => (h.level min d m hm).mono fun _ _ hread => ⟨hread.1, hread.2.fits⟩

theorem expr (h : g.Laid S b) : S.Lays b 1 g.expr (S.kept (·.expr ())) :=
  (h.operand_of_level 0).nested

theorem exprs (h : g.Laid S b) : S.Lays b 1 g.exprs (S.kept (·.exprs ())) := by
  simp only [Fold.exprs_eq, kept_all]
  exact h.expr.separated ","

theorem maybeExpr {rule : Rule Expr} (h : S.Lays b k rule (S.kept (·.expr ()))) :
    S.Lays b 0 (maybe rule) (S.kept (·.expr? ())) := by
  simp only [Fold.expr?_eq, kept_opt]
  exact h.maybe

theorem closedQuery (h : g.Laid S b) : S.Lays b 0 g.closedQuery
    (S.laid (.opt (layout.query id ())) (·.toList.flatMap Query.params)) := by
  have hclosed : S.Lays b 1 (do
      let query ← g.query
      let _ ← punct ")"
      return query) (S.kept (·.query id ())) :=
    .reads fun _ => h.query.add fun _ => .punct ")" <| .done (by simp +contextual)
  exact .reads fun _ => .look fun _ => .cond hclosed.maybe.rest (.nil rfl rfl)

theorem selection (h : g.Laid S (b + 1)) :
    S.Lays b 0 g.selection (S.kept (·.expr? ())) :=
  .reads fun _ => .ifFound
    (h.expr.add fun _ => .done (by simp +contextual [Fold.expr?])) (.nil rfl rfl)

/-! ## Operators after an operand -/

theorem quantified (h : g.Laid S b) (hlevel : op.level? = some j)
    (hop : (leaf op.span).Fits S m.deep i m.index) (hm : b ≤ m.index ∧ i ≤ m.index) :
    S.Ensures (g.quantified op) d m fun suffix m' => m.To 1 m' ∧ S.Attaches j d suffix i m' := by
  refine Lays.stable.bind (by omega) fun _ m₁ hto₁ _ => ?_
  refine (Lays.punct "(").bind (by omega) fun _ m₂ hto₂ _ => ?_
  refine h.closedQuery.bind (by omega) fun query m₃ hto₃ hquery => ?_
  cases query with
  | some query =>
    refine .pure ⟨by omega, fun start left hlt hleft hrefs _ =>
      ⟨⟨?_, stands_append.2 ⟨hrefs, by simpa using hquery.2⟩⟩, hlevel, fun _ _ _ => trivial⟩⟩
    exact .group (by omega) (.both (hleft.mono (by omega))
      (.both (hop.mono (by omega)) (hquery.1.mono (by omega))))
  | none =>
    refine h.expr.bind (by omega) fun array m₄ hto₄ harray => ?_
    refine (Lays.punct ")").bind (by omega) fun _ m₅ hto₅ _ => ?_
    refine .pure ⟨by omega, fun start left hlt hleft hrefs _ =>
      ⟨⟨?_, stands_append.2 ⟨hrefs, harray.2⟩⟩, hlevel, fun _ _ _ => trivial⟩⟩
    exact .group (by omega) (.both (hleft.mono (by omega))
      (.both (hop.mono (by omega)) (harray.1.mono (by omega))))

theorem isSuffix (h : g.Laid S (b + 1)) :
    S.Lays b 1 g.isSuffix fun suffix i m => ∀ d, S.Attaches 3 d suffix i m := by
  have htest {j start : Nat} (negated : Bool) (test : TruthTest) : S.Reads b (j + 1) start .empty []
      (pure fun e => .is e negated test) 1 fun suffix i m => ∀ d, S.Attaches 3 d suffix i m :=
    fun _ _ _ _ _ _ _ _ => .pure ⟨by omega, fun _ _ _ hlt hleft hrefs _ =>
      ⟨⟨.group (by omega) (hleft.mono (by omega)), hrefs⟩, rfl, fun _ _ _ => trivial⟩⟩
  exact .reads fun _ => .ifFound (htest _ _) <| .ifFound (htest _ _) <| .keyword "IS" <|
    .look fun _ => Lays.stable.passCases (fun _ => htest _ _) <| .skip fun _ =>
    (h.operand_of_level comparisonLevel).add fun _ =>
    .attach (fun _ _ => rfl) (by simp +contextual)

theorem inSuffix (h : g.Laid S (b + 1)) :
    S.Lays b 1 g.inSuffix fun suffix i m => ∀ d, S.Attaches 5 d suffix i m := by
  refine .reads fun _ => .look fun _ =>
    .keyword "IN" <| lays_paramRef.addCases (fun ref => ?_) <|
    .punct "(" <| h.closedQuery.add fun query => ?_
  · exact .attach (fun _ _ => rfl) (by simp +contextual)
  · cases query with
    | some query =>
      exact .attach (fun _ _ => rfl) (by simp +contextual [opt])
    | none =>
      exact h.exprs.add fun _ => .punct ")" <|
        .attach (fun _ _ => rfl) (by simp +contextual)

theorem betweenSuffix (h : g.Laid S (b + 1)) :
    S.Lays b 1 g.betweenSuffix fun suffix i m => ∀ d, S.Attaches 5 d suffix i m :=
  .reads fun _ => .look fun _ =>
    .keyword "BETWEEN" <| .look fun _ =>
    (h.operand_of_level symbolLevel).add fun _ => .keyword "AND" <|
    (h.operand_of_level symbolLevel).add fun _ =>
    .attach (fun _ _ => rfl) (by simp +contextual)

theorem escape (h : g.Laid S (b + 1)) : S.Lays b 1 g.escape (S.kept (·.expr ())) :=
  .reads fun _ => .keyword "ESCAPE" (h.operand_of_level symbolLevel).rest

theorem likeSuffix (h : g.Laid S (b + 1)) :
    S.Lays b 1 g.likeSuffix fun suffix i m => ∀ d, S.Attaches 5 d suffix i m :=
  .reads fun _ => .look fun _ => .skip fun _ =>
    (h.operand_of_level symbolLevel).add fun _ => (maybeExpr h.escape).add fun _ =>
    .attach (fun _ _ => rfl) (by simp +contextual)

/-- The right operand has taken all operators that are tighter. -/
theorem rightOperand (h : g.Laid S b) (hlevel : op.level? = some j)
    (hop : (leaf op.span).Fits S m.deep i m.index) (hm : b ≤ m.index ∧ i ≤ m.index) :
    S.Ensures (g.rightOperand j op) d m fun suffix m' =>
      m.To 1 m' ∧ S.Attaches j d suffix i m' := by
  refine (h.level (j + 1) d m hm.1).bind fun right m₁ ⟨hto₁, hright⟩ => ?_
  refine .pure ⟨hto₁, fun start left hlt hleft hrefs hfits =>
    ⟨⟨?_, stands_append.2 ⟨hrefs, hright.fits.2⟩⟩, hlevel, ?_⟩⟩
  · refine .node ?_ (by omega) (.inl (by omega)) ?_
    · intro level hown
      obtain rfl := Option.some.inj (hlevel.symm.trans hown)
      exact ⟨hright.tight, hfits⟩
    · exact .both (hleft.mono (by omega))
        (.both (hop.mono (by omega)) (hright.fits.1.mono (by omega)))
  · intro hdeep k hfollows own hown
    obtain rfl := Option.some.inj (hlevel.symm.trans hown)
    have hlt := hright.ends hdeep k hfollows
    omega

theorem suffix (h : g.Laid S (b + 1)) {level : Level} (hlevel : levels[j]? = some level)
    (hm : b ≤ m.index) :
    S.Ensures (g.suffix j level) d m fun suffix m' =>
      m.To 1 m' ∧ S.Attaches j d suffix m.index m' := by
  cases level with
  | connective word =>
    have hword : IsWord word := ⟨isWord_of_mem (mem_of_getElem? hlevel)⟩
    have hblank : Nonblank word := IsWord.nonblank
    refine (Lays.keyword word).bind (by omega) fun span m₁ hto₁ hspan => ?_
    refine (h.rightOperand (Operator.level?_of_connective hlevel span) hspan.1 (by omega)).mono
      fun suffix m₂ hread => ⟨by omega, hread.2⟩
  | negation => exact .reject
  | test =>
    obtain rfl := (index_of_level hlevel).1 rfl
    exact (h.isSuffix d m hm).mono fun _ _ hread => ⟨hread.1, hread.2 d⟩
  | membership =>
    obtain rfl := (index_of_level hlevel).2 rfl
    have hrules : S.Lays b 1 (firstOf [g.inSuffix, g.betweenSuffix, g.likeSuffix])
        fun suffix i m => ∀ d, S.Attaches 5 d suffix i m := by
      refine Lays.firstOf ?_
      simp only [forall_mem_cons]
      exact ⟨h.inSuffix, h.betweenSuffix, h.likeSuffix, nofun⟩
    exact (hrules d m hm).mono fun _ _ hread => ⟨hread.1, hread.2 d⟩
  | symbols label isQuantified allowed =>
    refine (Lays.operatorWhere label allowed).bind (by omega)
      fun token m₁ hto₁ ⟨htoken, hallowed⟩ => ?_
    obtain ⟨cs, x, hscan, hvalue⟩ := htoken.2
    have hop := Operator.level?_of_symbols hlevel hallowed
      (hvalue ▸ Lexeme.exists_isOperatorChar hscan) token.span
    have hright {m₂ : S.Spot} (hto₂ : m₁.To 0 m₂) :
        S.Ensures (g.rightOperand j ⟨token.value, token.span⟩) d m₂ fun suffix m' =>
          m.To 1 m' ∧ S.Attaches j d suffix m.index m' :=
      (h.rightOperand hop (htoken.leaf.mono (by omega)) (by omega)).mono
        fun _ _ hread => ⟨by omega, hread.2⟩
    refine .cond (fun _ => ?_) fun _ => hright (by omega)
    refine (h.quantified hop htoken.leaf (by omega)).maybeCases
      (fun suffix m₂ hread => .pure ⟨by omega, hread.2⟩) fun m₂ hindex hdeep => ?_
    exact hright (by omega)

/-! ## Operators around an operand -/

/-- An operator has been read, and another grammar that agrees reads it, too. -/
theorem anySuffix (h : g.Laid S (b + 1)) (hag : g.Agrees n (ofText S.text))
    (hn : S.text.length ≤ n + b) (min : Nat) (hm : b ≤ m.index) :
    S.Ensures (g.anySuffix min) d m fun suffix m' => m.To 1 m' ∧ ∃ j, min ≤ j ∧
      S.Attaches j d suffix m.index m' ∧ (m'.deep = 0 → S.Follows j d m.index) := by
  refine Ensures.firstOf fun rule hmem m₁ hindex hdeep => ?_
  obtain ⟨⟨level, j⟩, hentry, rfl⟩ := mem_map.1 hmem
  obtain ⟨hlevel, hmin⟩ := mem_drop_levels.1 (mem_reverse.1 hentry)
  refine (h.suffix hlevel (by omega)).withRun.mono fun suffix m₂ hread => ?_
  obtain ⟨⟨hto, hattaches⟩, c, c', hc, hc', hrun⟩ := hread
  rw [hindex] at hattaches
  refine ⟨by omega, j, hmin, hattaches, fun hzero => ?_⟩
  have hself := hag.vacuous g
  have hsame := Agrees.suffix (h := hag) j level fun word hword =>
    isWord_of_mem (hword ▸ mem_of_getElem? hlevel)
  have hclear : (g.suffix j level ⟨S.tolerant, d⟩ c).2.tooDeep = none := by
    rw [hrun]
    exact Cursor.deep_eq_zero.1 (hc'.deep.trans hzero)
  have hlen := hc.length
  have hother := hsame.same (by omega) hclear ⟨rfl, Nat.le_refl _, .same _, hsame.clear hclear⟩
  refine ⟨level, ⟨S.tolerant, d⟩, c, hlevel, rfl, Nat.le_refl d, hindex ▸ hc.mark,
    hsame.clear hclear, ?_⟩
  rw [Option.ne_none_iff_isSome, ← hother.isSome, hrun]
  rfl

/-- Where no operator has been found, none of the level follows. -/
theorem anySuffix_none (hag : g.Agrees n (ofText S.text)) {min : Nat} {c c' : Cursor}
    (hc : c.At m) (hn : S.text.length ≤ n + m.index)
    (hrun : maybe (g.anySuffix min) ⟨S.tolerant, d⟩ c = (some none, c'))
    (hclear : c'.tooDeep = none) (hfollows : S.Follows j d m.index) : j < min := by
  obtain ⟨level, ctx, c₁, hlevel, htolerant, hdepth, hmark, hc₁, hread⟩ := hfollows
  cases hr : g.anySuffix min ⟨S.tolerant, d⟩ c with
  | mk value c₂ =>
    cases value with
    | some suffix =>
      rw [maybe_some hr] at hrun
      cases hrun
    | none =>
      rw [maybe_none hr] at hrun
      cases hrun
      have hlen := hc.length
      have hself := hag.vacuous g
      have hrest : Rewritten c.mark.rest c₁.mark.rest := by
        rw [hmark, hc.mark]
        exact .same _
      by_contra hge
      refine hread (Agrees.firstOf_eq_none (Agrees.suffixes (h :=
        hag) min) (by omega) (congrArg Prod.fst hr)
        ((congrArg (·.2.tooDeep) hr).trans hclear)
        ⟨htolerant, hdepth, hrest, hc₁⟩
        _ (mem_map.2 ⟨(level, j), ?_, rfl⟩))
      exact mem_reverse.2 (mem_drop_levels.2 ⟨hlevel, by omega⟩)

theorem operand (h : g.Laid S (b + 1)) (hu : S.Lays b 1 unary S.Bare)
    (min : Nat) (hm : b ≤ m.index) :
    S.Ensures (g.operand unary min) d m fun e m' => m.To 1 m' ∧
      S.kept (·.expr ()) e m.index m' ∧
      (∀ own, e.level? = some own → min ≤ own) ∧ S.Leads d e m' := by
  have hunary {m₁ : S.Spot} (hto₁ : m.To 0 m₁) : S.Ensures unary d m₁ fun e m' => m.To 1 m' ∧
      S.kept (·.expr ()) e m.index m' ∧ (∀ own, e.level? = some own → min ≤ own) ∧
        S.Leads d e m' := by
    refine (hu d m₁ (by omega)).mono fun e m₂ ⟨hto₂, hread⟩ => ?_
    refine ⟨by omega, hread.fits.imp_left (·.mono (by omega)), fun own hown => ?_, fun _ j _ => ?_⟩
    · rw [hread.bare] at hown
      cases hown
    · exact Expr.FitsLeft.of_level?_eq_none hread.bare j
  unfold Grammar.operand
  split
  · next hmin =>
    refine Ensures.begin fun m₀ hto₀ => ?_
    refine (Lays.keyword "NOT").maybeCases (by omega) (fun span m₁ hto₁ hspan => ?_)
      fun m₁ hto₁ => hunary (by omega)
    refine (h.level negationLevel (d + 1) m₁ (by omega)).nested.bind
      fun inner m₂ ⟨hto₂, hinner⟩ => ?_
    refine .spanFrom (by omega) (.pure ⟨by omega, ⟨.group (by omega)
        (.both (hspan.1.mono (by omega)) (hinner.fits.1.mono (by omega))), hinner.fits.2⟩, ?_, ?_⟩)
    · intro own hown
      obtain rfl := Option.some.inj hown
      exact hmin
    · intro hdeep j hfollows _
      have hlt := hinner.ends hdeep j (hfollows.mono (Nat.le_succ d))
      exact Nat.lt_trans hlt (by decide)
  · exact hunary (by omega)

/-- Each round keeps that what has been read can stand to the left of what follows. -/
theorem operators (h : g.Laid S (b + 1)) (hag : g.Agrees n (ofText S.text))
    (hn : S.text.length ≤ n + b) (hu : S.Lays b 1 unary S.Bare) (min : Nat)
    (hm : b ≤ m.index) :
    S.Ensures (g.operators unary min) d m fun e m' =>
      m.To 1 m' ∧ S.Operated min d e m.index m' := by
  refine Ensures.begin fun m₀ hto₀ => ?_
  refine (h.operand hu min (by omega)).bind fun first m₁ ⟨hto₁, hfirst, htight, hleads⟩ => ?_
  refine Ensures.grow (I := fun e m' => m₀.To 1 m' ∧ S.kept (·.expr ()) e m₀.index m' ∧
    (∀ own, e.level? = some own → min ≤ own) ∧ S.Leads d e m') ?_ ⟨hto₁, hfirst, htight, hleads⟩
  rintro e m₂ ⟨hto₂, hfits, htight, hleads⟩
  refine (h.anySuffix hag hn min (by omega)).maybe.withRun.bind fun result m₃ hread => ?_
  obtain ⟨htried, c, c', hc, hc', hrun⟩ := hread
  cases result with
  | none =>
    obtain ⟨hindex, hdeep⟩ := htried
    refine .pure ⟨by omega, hfits.imp_left (·.mono (by omega)), htight, fun hzero j hfollows => ?_⟩
    have hclear : c'.tooDeep = none := Cursor.deep_eq_zero.1 (hc'.deep.trans hzero)
    exact anySuffix_none hag hc (by omega) hrun hclear (hindex ▸ hfollows)
  | some suffix =>
    obtain ⟨hto₃, j, hmin, hattaches, hfollows⟩ := htried
    have hattached : S.Attached j d (suffix e (S.span m₀.index m₃.index)) m₀.index m₃ :=
      hattaches (by omega) (hfits.1.mono (by omega)) hfits.2 fun hzero =>
        hleads (by omega) j (hfollows hzero)
    refine .spanFrom (by omega) (.pure
      ⟨hto₃, by omega, hattached.fits, fun own hown => ?_, hattached.leads⟩)
    obtain rfl := Option.some.inj (hattached.level.symm.trans hown)
    exact hmin

end Grammar.Laid

end SqlTyping
