import SqlTyping.Proofs.Resolution.Modes
import SqlTyping.Proofs.Resolution.Params
import SqlTyping.Proofs.Resolution.Scopes

/-!
# Views as subqueries

A view can be replaced by its query. The query of a view is resolved on its own, that of a subquery
in the scope of the tables beside it, but a query that is complete finds the same columns in any
scope. The subquery stands after the tables, where the view stood among them, and it has no name in
the catalog; neither shows to a reference unless it finds the view by its schema.
-/

namespace SqlTyping

open List

variable {table text : String} {columns : List Column} {statement : Statement}
  {nested : List (Param SqlType)} {asName schema : Option String} {span : Span}

/-- A statement without parameters has none when it is resolved. -/
theorem Statement.params_of_resolveIn {st : Statement} (hst : st.params = []) {ctx : ResolveContext}
    {outer : List Level} {views known : ViewColumns} {typed : TypedInterface}
    (h : ((st.interface []).resolveIn ctx outer).run.run views = (.ok typed, known)) :
    typed.params = [] := by
  have hlisted : Param.listed (st.interface []).entries = [] := by
    refine eq_nil_iff_forall_not_mem.2 fun m hm => ?_
    have hkept : m ∈ st.outline.kept := st.mentions_interface ▸ mem_toFinset.2 hm
    obtain ⟨ref, href, -⟩ := Outline.exists_ref_of_mem_kept hkept
    have hmem := st.refs_outline.mem_iff.1 href
    rw [hst] at hmem
    cases hmem
  obtain ⟨hordered, hdigest⟩ := (st.interface []).ordered_resolveIn st.tidy_interface h
  rw [Param.eq_nil_of_listed st.tidy_interface hlisted] at hdigest
  refine eq_nil_iff_forall_not_mem.2 fun p hp => ?_
  have hspans : p.spans.toFinset = ∅ := congrArg Digest.spans
    ((Param.digest_of_mem hordered.names hp).symm.trans (hdigest p.name))
  exact (hordered.each p hp).occurs ((toFinset_eq_empty_iff _).1 hspans)

/-! ## Queries in a wider scope -/

section

variable {store : Store}

/-- In strict mode, contexts that read views alike are related in scopes where the second sees what
the first sees. -/
theorem Comparison.scoped_sees {I J : ViewColumns → Prop} {P : RecordKey → Prop}
    {Q : List Level → ColumnRef → Prop} {S : List Level → List Level → Prop}
    (hpush : ∀ {outer outer'} (level : Level), S outer outer' →
      S (level :: outer) (level :: outer'))
    (hsees : ∀ {levels levels'}, S levels levels' → Level.Sees (Q levels) levels levels')
    {views views' : ViewReader}
    (h : ∀ n, P ⟨.table, n⟩ → ∀ name text columns, store.table? n = some (.view name text columns) →
      (known True I J).act (views name text columns) (views' name text columns)) :
    (known True I J).Scoped P Q S ⟨store, .strict, views⟩ ⟨store, .strict, views'⟩ where
  push level hS := hpush level hS
  types _ hS := {
    column := fun schema table name span hQ => known_of_ok fun t ht =>
      (recover_strict _).trans
        (hsees hS ⟨schema, table, name⟩ hQ span _ _ _ t ((recover_strict _).symm.trans ht))
    named := fun _ _ _ => known_of_ok fun _ => id
    unknown := fun _ _ => known_of_ok fun _ => id
    function := fun _ _ _ _ _ => known_of_ok fun _ => id
    field := fun _ _ _ => known_of_ok fun _ => id }
  star _ _ _ _ := known_of_ok fun _ => id
  table _ _ asName isResult span hn :=
    table_related asName isResult span rfl (fun _ _ _ => known_of_ok fun _ => id)
      (fun found text columns hf => h _ hn found text columns hf)
      (reflexive_known.missing rfl _ _)

/-- The query of a view that settles has its columns in any scope. -/
theorem Settles.resolveIn_query {name : QualifiedName} {c : List (Field SqlType)}
    (h : Settles store .strict name c)
    (hview : store.IsView name text columns)
    (hparse : parse text = .ok statement) (outer : List Level) {known : ViewColumns}
    (hk : SettledViews store .strict known) :
    ∃ typed known', ((statement.interface []).resolveIn (.ofStore store .strict) outer).run.run
        known = (.ok typed, known') ∧ typed.results = c ∧ SettledViews store .strict known' := by
  cases h with
  | @query _ _ _ statement' f typed hview' hparse' hinner htyped =>
    obtain ⟨rfl, rfl⟩ := hview.unique hview'
    rw [hparse, Except.ok.injEq] at hparse'
    subst hparse'
    have hrelated : (Comparison.known True (· = []) (SettledViews store .strict)).act
        ((statement.interface []).resolveIn ⟨store, .strict, readFrom f⟩ [])
        ((statement.interface []).resolveIn (.ofStore store .strict) outer) := by
      refine Interface.resolveIn_scoped (P := (· ∈ (statement.interface []).needs.keys))
        (Q := fun _ _ => True) (S := Level.Sees fun _ => True)
        (Comparison.scoped_sees (fun level hS => .cons (.refl _ level) hS fun _ _ _ _ => trivial) id
          fun n hn inner text' columns' hf => ?_) _
        (Level.Sees.nil _ outer) (r := {}) (fun _ hkey => hkey) fun _ _ _ => trivial
      intro _ known hnil hknown
      have hopens : Opens store name inner := ⟨text, columns, statement, hview, hparse, n,
        Interface.table_mem_needs.1 hn, text', columns', hf⟩
      obtain ⟨hread, hafter⟩ := (hinner inner hopens).readView_eq (ample_nil store)
        (fun n hm => by cases hm) ⟨n, hf⟩ hknown
      exact ⟨hnil, .inl ⟨hread.symm, hafter⟩⟩
    obtain ⟨-, known', hrun, hk'⟩ := Comparison.known_run hrelated rfl hk (Prod.ext htyped rfl)
    exact ⟨typed, known', hrun, rfl, hk'⟩
  | catalog _ _ hmode => cases hmode

/-! ## Lookups from the start -/

theorem Comparison.contexts_ofStore (store : Store) (mode : ResolveMode) :
    (known False (SettledViews store mode) (SettledViews store mode)).Contexts (fun _ => True)
      (.ofStore store mode) (.ofStore store mode) :=
  reflexive_known.contexts_of_views fun n _ name text columns hf =>
    (show store.IsView name text columns from ⟨n, hf⟩).independent.1

variable {mode : ResolveMode}

/-- What there can be where views are known that settle, there can be where none is known. -/
theorem Resolve.Yields.of_settledViews {α : Type} {x : Resolve α} {a : α}
    (h : x.Yields (SettledViews store mode) a)
    (hx : (Comparison.known False (SettledViews store mode) (SettledViews store mode)).act x x) :
    x.Yields (· = []) a := by
  obtain ⟨views, known, hv, hrun⟩ := h
  obtain ⟨-, known', hrun', -⟩ := Comparison.known_run hx hv settledViews_nil hrun
  exact ⟨[], known', rfl, hrun'⟩

mutual

/-- What is looked up where views are known that settle is looked up where none is known. -/
theorem Interface.looksUp_of_settledViews (q : Interface)
    (h : q.LooksUp (SettledViews store mode) (.ofStore store mode) ref outer levels) :
    q.LooksUp (· = []) (.ofStore store mode) ref outer levels := by
  have hC := Comparison.contexts_ofStore store mode
  obtain ⟨sources, params, results, nullable⟩ := q
  have htables := ResolveContext.tables_related hC sources (r := {}) fun _ _ => trivial
  cases h with
  | @own _ _ tables _ _ htables' hlevel href =>
    have hlist := Source.resolveList_scoped hC sources (rfl : outer = outer) tables (r := {})
      (fun _ _ => trivial) fun _ _ _ => trivial
    exact .own (htables'.of_settledViews htables) (hlevel.of_settledViews hlist) href
  | sources htables' h =>
    exact .sources (htables'.of_settledViews htables) (Source.looksUpList_of_settledViews sources h)

theorem Source.looksUp_of_settledViews (source : Source)
    (h : source.LooksUp (SettledViews store mode) (.ofStore store mode) ref outer level levels) :
    source.LooksUp (· = []) (.ofStore store mode) ref outer level levels := by
  cases source with
  | table => cases h
  | query name q isResult =>
    cases h with
    | query h => exact .query (Interface.looksUp_of_settledViews q h)
  | values name columns types isResult =>
    cases h with
    | values h => exact .values h

theorem Source.looksUpList_of_settledViews (sources : List Source)
    (h : Source.LooksUpList (SettledViews store mode) (.ofStore store mode) ref sources outer level
      levels) :
    Source.LooksUpList (· = []) (.ofStore store mode) ref sources outer level levels := by
  cases sources with
  | nil => cases h
  | cons source sources =>
    cases h with
    | head h => exact .head (Source.looksUp_of_settledViews source h)
    | tail hfound h =>
      have hsource := Source.resolve_scoped (Comparison.contexts_ofStore store mode) source
        (rfl : level :: outer = level :: outer) (r := {}) (fun _ _ => trivial) fun _ _ _ => trivial
      exact .tail (hfound.of_settledViews hsource) (Source.looksUpList_of_settledViews sources h)

end

/-! ## Replacing a view by its query -/

variable {visible : String} {name : QualifiedName} {level level' : Level}

/-- In the store itself, scopes can differ in the name of a source in the catalog, if no reference
finds the source by its schema. -/
theorem Comparison.scoped_uncatalogs (store : Store) (visible : String) (name : QualifiedName) :
    (known True (SettledViews store .strict) (SettledViews store .strict)).Scoped (fun _ => True)
      (fun levels ref => ¬ref.QualifiesOutermost visible name levels)
      (Level.UncatalogsOutermost visible name) (.ofStore store .strict) (.ofStore store .strict) :=
  scoped_sees (fun level hS => hS.push level) (fun hS => hS.sees)
    fun n _ name text columns hf views known hv hk => by
      have hview : store.IsView name text columns := ⟨n, hf⟩
      obtain ⟨hafter, ho⟩ := hview.independent.1 views known hv hk
      exact ⟨hafter, ho.imp_right fun h => h.1.elim⟩

/-- The sources that follow are the same where a source has no name in the catalog. -/
theorem Source.resolveList_uncatalogs (hl : level.Uncatalogs visible name level')
    (sources : List Source)
    (hrefs : ∀ levels ref, Source.LooksUpList (SettledViews store .strict) (.ofStore store .strict)
      ref sources [] level levels → ¬ref.QualifiesOutermost visible name levels)
    {views views' known : ViewColumns} (hv : SettledViews store .strict views)
    (hk : SettledViews store .strict known) {found : Level × List (Param SqlType)}
    (h : (Source.resolveList (.ofStore store .strict) sources [] level).run.run views =
      (.ok found, views')) :
    ∃ more known', found.1 = level ++ more ∧
      (Source.resolveList (.ofStore store .strict) sources [] level').run.run known =
        (.ok (level' ++ more, found.2), known') := by
  induction sources generalizing level level' views known found with
  | nil =>
    cases h
    refine ⟨[], known, (append_nil _).symm, ?_⟩
    simp only [Source.resolveList, append_nil]
    rfl
  | cons source sources ih =>
    simp only [Source.resolveList] at h ⊢
    obtain ⟨⟨first, params⟩, between, hsource, hrest⟩ := Resolve.run_bind_ok h
    obtain ⟨⟨after, more⟩, between', hrest, hfound⟩ := Resolve.run_bind_ok hrest
    cases hfound
    obtain ⟨hv', known', hsource', hk'⟩ := Comparison.known_run
      (Source.resolve_scoped (Comparison.scoped_uncatalogs store visible name) source (.here hl)
        (r := {}) (fun _ _ => trivial) fun levels ref href => hrefs levels ref (.head href))
      hv hk hsource
    obtain ⟨rest, known'', hafter, hrest'⟩ := ih (hl.append first)
      (fun levels ref href => hrefs levels ref (.tail ⟨views, between, hv, hsource⟩ href))
      hv' hk' hrest
    refine ⟨first ++ rest, known'', by rw [hafter, append_assoc], ?_⟩
    rw [Resolve.run_bind_of_ok _ hsource', Resolve.run_bind_of_ok _ hrest', append_assoc]
    rfl

/-- So are the results, if there is no star among them, and the parameters. -/
theorem ResolveContext.finish_uncatalogs (hl : level.Uncatalogs visible name level')
    {params : List (Param TypeExpr)} {results : List ResultColumn}
    (hstar : ∀ c ∈ results, ∀ schema table span, ResultColumn.type c ≠ .star schema table span)
    (hrefs : ∀ ref ∈ params.flatMap (·.type.columnRefs) ++ results.flatMap (·.type.columnRefs),
      ¬ref.QualifiesOutermost visible name [level])
    {typed : TypedInterface}
    (h : (ofStore store .strict).finish level [] params results nested = .ok typed) :
    (ofStore store .strict).finish level' [] params results nested = .ok typed := by
  have hrelated := ResolveContext.finish_related
    (Comparison.scoped_uncatalogs store visible name) (.here hl) params results nested (.inr hstar)
    (fun _ _ => ⟨{}, fun _ _ => trivial⟩) (fun _ _ => ⟨{}, fun _ _ => trivial⟩) hrefs
  rcases hrelated with ho | ⟨-, e, he⟩
  · exact ho.symm.trans h
  · exact absurd (h.symm.trans he) (by simp)

end

section

variable {ctx : ResolveContext} {rest : List Source} {params : List (Param TypeExpr)}
  {results : List ResultColumn} {nullable : List String} {outer : List Level} {isResult : Bool}
  {views known : ViewColumns} {typed : TypedInterface}

/-- Once the tables are found, a table is passed over. -/
theorem Source.resolveList_table (schema : Option String) (table : String) (asName : Option String)
    (span : Span) (level : Level) :
    Source.resolveList ctx (.table schema table asName isResult span :: rest) outer level =
      Source.resolveList ctx rest outer level := by
  simp only [Source.resolveList, Source.resolve, pure_bind, append_nil, nil_append]
  exact bind_pure _

/-- How an interface is resolved whose first source is a table. -/
theorem Interface.exists_of_run_table (h : (Interface.resolveIn ctx
      ⟨.table schema table asName isResult span :: rest, params, results, nullable⟩
      outer).run.run views = (.ok typed, known)) :
    ∃ found others level nested views₁ views₂ views₃,
      (ctx.table (.table schema table asName isResult span)).run.run views = (.ok found, views₁) ∧
      (ctx.tables rest).run.run views₁ = (.ok others, views₂) ∧
      (Source.resolveList ctx rest outer (found.toList ++ others)).run.run views₂ =
        (.ok (level, nested), views₃) ∧
      ctx.finish (level.setNullable nullable) outer params results nested = .ok typed := by
  simp only [Interface.resolveIn, Source.resolveList_table] at h
  obtain ⟨tables, views₂, htables, h⟩ := Resolve.run_bind_ok h
  obtain ⟨found, views₁, hfound, htables⟩ := Resolve.run_bind_ok htables
  obtain ⟨others, _, hothers, htables⟩ := Resolve.run_bind_ok htables
  cases htables
  obtain ⟨⟨level, nested⟩, views₃, hlist, hfinish⟩ := Resolve.run_bind_ok h
  exact ⟨found, others, level, nested, views₁, views₂, views₃, hfound, hothers, hlist,
    congrArg Prod.fst hfinish⟩

/-- How an interface is resolved whose first source is a query. -/
theorem Interface.run_query {name : String} {q : Interface} {others level : Level}
    {inner : TypedInterface} {views₁ views₂ : ViewColumns}
    (hothers : (ctx.tables rest).run.run views = (.ok others, views₁))
    (hinner : (q.resolveIn ctx (others :: outer)).run.run views₁ = (.ok inner, views₂))
    (hlist : (Source.resolveList ctx rest outer
      (others ++ [⟨name, none, isResult, inner.results⟩])).run.run views₂ =
        (.ok (level, nested), known))
    (hfinish : ctx.finish (level.setNullable nullable) outer params results
      (inner.params ++ nested) = .ok typed) :
    ((Interface.resolveIn ctx ⟨.query name q isResult :: rest, params, results, nullable⟩
      outer).run.run views).1 = .ok typed := by
  have htables : (ctx.tables (.query name q isResult :: rest)).run.run views =
      (.ok others, views₁) := by
    simp only [ResolveContext.tables, ResolveContext.table]
    rw [pure_bind, Resolve.run_bind_of_ok _ hothers]
    rfl
  have hsource : (Source.resolve ctx (.query name q isResult) outer others).run.run views₁ =
      (.ok ([⟨name, none, isResult, inner.results⟩], inner.params), views₂) := by
    simp only [Source.resolve]
    rw [Resolve.run_bind_of_ok _ hinner]
    rfl
  have hsources : (Source.resolveList ctx (.query name q isResult :: rest) outer others).run.run
      views₁ = (.ok (level, inner.params ++ nested), known) := by
    simp only [Source.resolveList]
    rw [Resolve.run_bind_of_ok _ hsource, Resolve.run_bind_of_ok _ hlist]
    rfl
  simp only [Interface.resolveIn]
  rw [Resolve.run_bind_of_ok _ htables, Resolve.run_bind_of_ok _ hsources]
  exact hfinish

end

/-- How an interface is resolved whose first source is a view: the view settles on its columns, and
the other tables are found without it too. -/
theorem Interface.exists_of_run_view {store : Store} {isResult : Bool} {rest : List Source}
    {params : List (Param TypeExpr)} {results : List ResultColumn} {nullable : List String}
    {name : QualifiedName}
    (hview : store.table? ⟨schema, table⟩ = some (.view name text columns)) {typed : TypedInterface}
    (h : Interface.resolve store .strict
      ⟨.table schema table asName isResult span :: rest, params, results, nullable⟩ = .ok typed) :
    ∃ c others level nested views views' known, Settles store .strict name c ∧
      ((ResolveContext.ofStore store .strict).tables
        (.table schema table asName isResult span :: rest)).Yields (SettledViews store .strict)
          (⟨asName.getD table, some name, isResult, c⟩ :: others) ∧
      ((ResolveContext.ofStore store .strict).tables rest).run.run [] = (.ok others, known) ∧
      SettledViews store .strict views ∧ SettledViews store .strict known ∧
      (Source.resolveList (.ofStore store .strict) rest []
        (⟨asName.getD table, some name, isResult, c⟩ :: others)).run.run views =
          (.ok (level, nested), views') ∧
      (ResolveContext.ofStore store .strict).finish (level.setNullable nullable) [] params results
        nested = .ok typed := by
  obtain ⟨known, hrun⟩ : ∃ known, (Interface.resolveIn (.ofStore store .strict)
      ⟨.table schema table asName isResult span :: rest, params, results, nullable⟩ []).run.run [] =
        (.ok typed, known) := ⟨_, Prod.ext h rfl⟩
  obtain ⟨found, others, level, nested, views₁, views₂, views₃, hfound, hothers, hlist, hfinish⟩ :=
    Interface.exists_of_run_table hrun
  obtain ⟨c, rfl, hread⟩ := ResolveContext.run_table_view hview hfound
  have hreads : ReadsSettled store .strict name
      ((ResolveContext.ofStore store .strict).views name text columns) :=
    (show store.IsView name text columns from ⟨_, hview⟩).independent.readsSettled
  obtain ⟨hv₁, hsettles⟩ := hreads [] settledViews_nil
  rw [hread] at hv₁ hsettles
  obtain ⟨hv₂, known, hothers', hk⟩ := Comparison.known_run
    (ResolveContext.tables_related (Comparison.contexts_ofStore store .strict) rest (r := {})
      fun _ _ => trivial) hv₁ settledViews_nil hothers
  refine ⟨c, others, level, nested, views₂, views₃, known, hsettles c rfl,
    ⟨[], views₂, settledViews_nil, ?_⟩, hothers', hv₂, hk, hlist, hfinish⟩
  simp only [ResolveContext.tables]
  rw [Resolve.run_bind_of_ok _ hfound, Resolve.run_bind_of_ok _ hothers]
  rfl

/-- A view as the first source can be replaced by its query, which has no parameters, if no result
is a star and no reference finds the source by its schema: what is resolved in strict mode is then
resolved to the same interface. -/
theorem Interface.resolve_inlineView (store : Store) (q : Interface) {schema : Option String}
    {table : String} {asName : Option String} {isResult : Bool} {span : Span} {rest : List Source}
    (hsource : q.sources = .table schema table asName isResult span :: rest) {name : QualifiedName}
    {text : String} {columns : List Column}
    (hview : store.table? ⟨schema, table⟩ = some (.view name text columns)) {statement : Statement}
    (hparse : parse text = .ok statement) (hparams : statement.params = [])
    (hstar : ∀ c ∈ q.results, ∀ schema table span, c.type ≠ .star schema table span)
    (hrefs : ∀ levels ref, q.LooksUp (· = []) (.ofStore store .strict) ref [] levels →
      ¬ref.QualifiesOutermost (asName.getD table) name levels)
    {typed : TypedInterface} (h : q.resolve store .strict = .ok typed) :
    Interface.resolve store .strict
      { q with sources := .query (asName.getD table) (statement.interface []) isResult :: rest } =
        .ok typed := by
  obtain ⟨sources, params, results, nullable⟩ := q
  dsimp only at hsource hstar
  subst hsource
  have hrefs := fun levels ref href =>
    hrefs levels ref (Interface.looksUp_of_settledViews _ href)
  obtain ⟨c, others, level, nested, views, views', known, hsettles, htables, hothers, hv, hk, hlist,
    hfinish⟩ := Interface.exists_of_run_view hview h
  -- In the scope of the other tables, the query has the columns of the view, and no parameters.
  obtain ⟨inner, known', hinner, rfl, hk'⟩ := hsettles.resolveIn_query ⟨_, hview⟩ hparse [others] hk
  have hnone : inner.params = [] := Statement.params_of_resolveIn hparams hinner
  -- Whatever follows finds the same columns.
  have hl : Level.Uncatalogs (asName.getD table) name
      (⟨asName.getD table, some name, isResult, inner.results⟩ :: others)
      (others ++ [⟨asName.getD table, none, isResult, inner.results⟩]) :=
    ⟨_, others, rfl, rfl, .refl _, perm_append_singleton _ _⟩
  obtain ⟨more, known'', rfl, hlist'⟩ := Source.resolveList_uncatalogs hl rest
    (fun levels ref href => hrefs levels ref (.sources htables
      (.tail ⟨[], [], settledViews_nil, rfl⟩ (by rwa [append_nil])))) hv hk' hlist
  rw [← Source.resolveList_table schema table asName span] at hlist
  have hfinish' := ResolveContext.finish_uncatalogs ((hl.append more).setNullable nullable) hstar
    (fun ref href => hrefs _ ref (.own htables ⟨views, views', hv, hlist⟩ href)) hfinish
  refine Interface.run_query hothers hinner hlist' ?_
  rw [hnone, nil_append]
  exact hfinish'

theorem resolve_inlineView_recentNotes : ∃ statement typed,
    parse "SELECT n.id, note FROM notes n" = .ok statement ∧ statement.params = [] ∧
    recentNotes.resolve orderViews .strict = .ok typed ∧
    Interface.resolve orderViews .strict
      { recentNotes with sources := [.query "r" (statement.interface []) true] } = .ok typed := by
  have hread : (parse "SELECT n.id, note FROM notes n").toOption.any (·.params.isEmpty) = true := by
    decide +kernel
  have hview : orderViews.table? ⟨none, "recent"⟩ =
      some (.view ⟨some "public", "recent"⟩ "SELECT n.id, note FROM notes n" []) := by
    decide +kernel
  obtain ⟨statement, hparse, hread⟩ := exists_of_toOption_any hread
  have hparams : statement.params = [] := List.isEmpty_iff.1 hread
  obtain ⟨typed, h⟩ := exists_of_isOk recentNotes_resolve
  have hinlined := Interface.resolve_inlineView orderViews recentNotes rfl hview hparse hparams
    (by simp [recentNotes])
    (fun levels ref => recentNotes.not_qualifiesOutermost (by decide +kernel)) h
  exact ⟨statement, typed, hparse, hparams, h, hinlined⟩

end SqlTyping
