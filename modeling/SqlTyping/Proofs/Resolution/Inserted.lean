import SqlTyping.Proofs.Params.Columns
import SqlTyping.Proofs.Resolution.Lookups
import SqlTyping.Proofs.Resolution.Required

/-!
# Parameters that are inserted

The query of an `INSERT` is expected to have the types of the columns that it fills. Such a type is
a reference to the table by its name, and it is resolved inside the query. If no source there has
that name, a parameter that is selected has the type of its column, just as in
`INSERT INTO t (c) VALUES ($p)`.
-/

namespace SqlTyping

open Extract Outline List
open Fold (params)

variable {e : Expr} {ref : ParamRef} {query : Query} {select : Select} {asName label : Option Ident}
  {q : Interface} {known views : ViewColumns} {columns : List Ident} {store : Store}
  {loaded : TypedInterface} {name : String} {noted more : List (Param TypeExpr)} {m n : Nat}
  {s t u : Scope}

/-! ## Extraction -/

theorem addItems_append (a b : List SelectItem) :
    addItems (a ++ b) = addItems a >>= fun _ => addItems b := by
  induction a with
  | nil => rw [nil_append, addItems, pure_bind]
  | cons item rest ih => rw [cons_append, addItems, ih, addItems, bind_assoc]

theorem inferExpr_unnested (e : Expr) (expected : Option TypeExpr) :
    inferExpr e.unnested expected = inferExpr e expected := by
  fun_induction Expr.unnested e with
  | case1 inner _ ih => rw [ih, inferExpr.eq_def (.nested _ _)]
  | case2 => rfl

theorem inferExpr_of_param? (h : e.param? = some ref)
    (expected : Option TypeExpr) : inferExpr e expected = useParam ref expected := by
  rw [← inferExpr_unnested]
  unfold Expr.param? at h
  split at h
  · next heq =>
    cases h
    rw [heq, inferExpr]
  · cases h

/-- A run from `s` to `t` adds `n` result columns and notes the entries of the parameter. -/
structure Passes (name : String) (noted : List (Param TypeExpr)) (n : Nat) (s t : Scope) :
    Prop where
  view : t.view = { s.view with results := s.view.results + n }
  noted : ∃ g : Growth, s.interface.Grows g t.interface ∧ g.noted name = (noted, [])

namespace Passes

theorem trans (h : Passes name noted m s t) (h' : Passes name more n t u) :
    Passes name (noted ++ more) (m + n) s u := by
  obtain ⟨g, hg, hn⟩ := h.noted
  obtain ⟨g', hg', hn'⟩ := h'.noted
  refine ⟨h'.view.trans (by rw [h.view, Nat.add_assoc]), _, hg.trans hg', ?_⟩
  rw [Growth.noted_append, hn, hn']
  rfl

theorem proper {H : Param TypeExpr → Prop} (h : Passes name noted n s t) (hs : s.Proper H) :
    t.Proper H :=
  hs.congr (by rw [h.view]) (by rw [h.view])

theorem refl : Passes name [] 0 s s := ⟨rfl, .none, .same rfl rfl rfl, rfl⟩

/-- An action that meets other parameters only. -/
theorem next {α : Type} {x : Extract α} {o : Outline} {refs : List ParamRef}
    (h : Passes name noted n s t) (hs : s.Proper (Other name)) (hx : Does .quiet (Other name) x o)
    (hperm : o.refs.Perm refs) (hrefs : ∀ ref ∈ refs, ref.name ≠ name) :
    Passes name noted n s (x.run t).2 := by
  obtain ⟨-, -, g, hg, hquiet, hall⟩ :=
    hx (fun ref href _ _ _ => hrefs ref (hperm.mem_iff.1 href)) t (h.proper hs)
  have hstep : Passes name [] 0 t (x.run t).2 := ⟨hquiet nofun, g, (hall t (.refl t)).2.1, hg.noted⟩
  rw [← append_nil noted]
  exact h.trans hstep

theorem addResult (label : String) (type : TypeExpr) (span : Span) :
    Passes name [] 1 s ((addResult label type span).run s).2 := by
  have hlength : (s.interface.results ++ [(⟨label, type, span⟩ : ResultColumn)]).length =
      s.view.results + 1 := length_append
  exact ⟨congrArg (fun results => { s.view with results }) hlength, ⟨[], [], [_]⟩,
    ⟨(append_nil _).symm, rfl, rfl⟩, rfl⟩

/-- A result column, for which the next type is expected. -/
theorem addItem (asName : Option Ident) (span : Span) (h : Passes name noted 0 s
      ((inferExpr e (s.expected[s.interface.results.length]?)).run s).2) :
    Passes name noted 1 s ((addItem (.expr e asName span)).run s).2 := by
  rw [SqlTyping.addItem, ← append_nil noted]
  exact h.trans (addResult _ _ _)

theorem addItems (items : List SelectItem)
    (hitems : ∀ ref ∈ params.items () items, ref.name ≠ name) (hs : s.Proper (Other name)) :
    Passes name [] items.length s ((addItems items).run s).2 := by
  induction items generalizing s with
  | nil =>
    rw [SqlTyping.addItems]
    exact refl
  | cons item rest ih =>
    obtain ⟨hitem, hrest⟩ := forall_mem_append.1 hitems
    have hfirst : Passes name [] 1 s ((SqlTyping.addItem item).run s).2 := by
      cases item with
      | wildcard => exact addResult _ _ _
      | expr e asName span =>
        exact addItem _ _ (refl.next hs (does_inferExpr e _) (refs_ofExpr e) hitem)
    rw [SqlTyping.addItems, length_cons, Nat.add_comm]
    exact hfirst.trans (ih hrest (hfirst.proper hs))

/-- A parameter as a result column. -/
theorem param (h : Passes ref.name noted n s t)
    (hp : e.param? = some ref) (asName : Option Ident) (span : Span) : Passes ref.name
      (noted ++ [ref.entry ((s.expected[s.view.results + n]?).getD (.known .unknown))]) (n + 1) s
      ((SqlTyping.addItem (.expr e asName span)).run t).2 := by
  have hnext : t.expected[t.interface.results.length]? = s.expected[s.view.results + n]? := by
    rw [show t.expected = s.expected from congrArg View.expected h.view,
      show t.interface.results.length = _ from congrArg View.results h.view]
  refine h.trans (addItem _ _ ?_)
  rw [inferExpr_of_param? hp, hnext]
  exact ⟨rfl, ⟨[], [ref.entry _], []⟩, ⟨(append_nil _).symm, rfl, (append_nil _).symm⟩,
    by simp [Growth.noted, ParamRef.entry, Source.listEntries]⟩

end Passes

/-- Of a parameter that is selected once, one entry is noted, with the type that is expected. -/
theorem passes_extractQuery {before after : List SelectItem} {span : Span}
    (hwith : query.withClause = none) (hbody : query.body = .select select)
    (hitems : select.items = before ++ .expr e label span :: after) (href : e.param? = some ref)
    (honce : query.params.countP (·.name == ref.name) = 1) (expected : List TypeExpr) :
    ∃ n, Passes ref.name [ref.entry (expected[before.length]?.getD (.known .unknown))] n
      (.fresh [] expected) ((extractQuery query).run (.fresh [] expected)).2 := by
  obtain ⟨_, _, orderBy, limit, offset, _, _⟩ := query
  obtain ⟨quantity, _, relations, selection, groupBy, having, windows, _⟩ := select
  dsimp only at hwith hbody hitems
  subst hwith hbody hitems
  have hcount : e.params.countP (·.name == ref.name) ≠ 0 := by
    rw [ne_eq, countP_eq_zero]
    exact fun h => h ref (mem_params_of_param? href) (beq_self_eq_true _)
  have hitems : params.items () (before ++ .expr e label span :: after) =
      params.items () before ++ (e.params ++ params.items () after) := by
    simp [Fold.items_eq, Fold.item]
  change countP _ ((params.quantity () quantity ++ (params.items () _ ++
    (params.relations () relations ++ (params.expr? () selection ++ (params.exprs () groupBy ++
      (params.expr? () having ++ params.windows () windows)))))) ++ (params.order () orderBy ++
        (params.expr? () limit ++ params.expr? () offset))) = 1 at honce
  rw [hitems] at honce
  simp only [countP_append] at honce
  have hother {refs : List ParamRef} (h : refs.countP (·.name == ref.name) = 0) :
      ∀ r ∈ refs, r.name ≠ ref.name := by
    simpa using countP_eq_zero.1 h
  have hs : (Scope.fresh [] expected).Proper (Other ref.name) :=
    Scope.proper_fresh (forall_mem_nil _) expected
  have hdistinct := (Passes.refl.next hs (does_extractRelations relations true)
    (refs_ofRelations relations) (hother (by omega))).next hs (does_inferDistinct quantity)
      (refs_ofDistinct quantity) (hother (by omega))
  have hbefore := hdistinct.trans (.addItems before (hother (by omega)) (hdistinct.proper hs))
  have hposition : (Scope.fresh [] expected).view.results + (0 + before.length) =
      before.length := by
    simp [Scope.view, Scope.fresh, Interface.empty]
  have hitem := hbefore.param href label span
  rw [hposition] at hitem
  have hafter := hitem.trans (.addItems after (hother (by omega)) (hitem.proper hs))
  have hhaving := ((hafter.next hs (does_inferOption selection (some .boolean))
    (refs_ofOption selection) (hother (by omega))).next hs (does_inferExprs groupBy)
    (refs_ofExprs groupBy) (hother (by omega))).next hs
      (does_inferOption having (some .boolean)) (refs_ofOption having) (hother (by omega))
  have horder := (hhaving.next hs (does_inferWindows windows) (refs_ofWindows windows)
    (hother (by omega))).next hs (does_inferOrder orderBy) (refs_ofOrder orderBy)
      (hother (by omega))
  have hend := (horder.next hs (does_inferOption limit (some .number)) (refs_ofOption limit)
    (hother (by omega))).next hs (does_inferOption offset (some .number))
      (refs_ofOption offset) (hother (by omega))
  rw [extractQuery, extractWith, extractSetExpr, extractSelect, addItems_append, addItems]
  exact ⟨_, hend⟩

/-- `INSERT INTO table (columns)` and then rows or a query. -/
def inserting (table : ObjectName) (asName : Option Ident) (columns : List Ident)
    (source : InsertSource) (span : Span) : Statement :=
  .insert ⟨none, table, asName, columns, source, none, [], span⟩

/-- The query of an `INSERT` into a table with the name `target`. -/
def Query.inserted (query : Query) (target : String) (columns : List Ident) : Interface :=
  ((extractQuery query).run (.fresh [] (targetColumns target columns))).2.finish

theorem interface_inserting_query (table : ObjectName) (asName : Option Ident)
    (columns : List Ident) (query : Query) (span : Span) :
    (inserting table asName columns (.query query) span).interface [] =
      ⟨[targetSource table asName, .query ("#subquery" ++ toString 2)
        (query.inserted (targetSource table asName).name columns) false], [], [], []⟩ := by
  -- Names that the query uses are marked, but there are none.
  obtain ⟨hview, hinterface⟩ := Scope.view_foldl_markUsed
    { Scope.fresh [] [] with interface := ⟨[targetSource table asName], [], [], []⟩ }
    ((extractQuery query).run (.fresh [] (targetColumns (targetSource table asName).name
      columns))).2.usedOuter
  have hfinish (scope : Scope) (inner : Interface) (hnamed : scope.named.map NamedQuery.source = [])
      (h : scope.interface = ⟨[targetSource table asName], [], [], []⟩) :
      Scope.finish { scope with
        interface := scope.interface.addSource (.query scope.syntheticName inner false) } =
      ⟨[targetSource table asName, .query ("#subquery" ++ toString 2) inner false], [], [],
        []⟩ := by
    rw [Scope.finish, map_eq_nil_iff.1 hnamed, Scope.syntheticName, h]
    rfl
  exact hfinish _ _ (congrArg View.named hview) hinterface

theorem interface_inserting_param (table : ObjectName) (asName : Option Ident) (column : Ident)
    (ref : ParamRef) (rows span : Span) :
    (inserting table asName [column] (.values ⟨[[.param ref]], rows⟩) span).interface [] =
      ⟨[targetSource table asName],
        [ref.entry (targetColumn (targetSource table asName).name column)], [], []⟩ := by
  show Interface.mk _ (Param.insert _ [] _) _ _ = _
  rw [Param.insert, Param.put, mergeSort_singleton]
  rfl

/-! ## Resolution -/

section Lookups

variable {ctx : ResolveContext} {mode : ResolveMode} {schema table : Option String}
  {column : String} {span : Span} {level : Level} {outer : List Level}

/-- The sources searched before matter only for the message. -/
theorem Level.recover_lookupFrom {levels : List Level} {position : ColumnPosition}
    {seen : List String} {type : SqlType} (seen' : List String)
    (h : recover mode (lookupFrom schema table column span levels position seen) = .ok type) :
    recover mode (lookupFrom schema table column span levels position seen') = .ok type := by
  induction levels generalizing position seen seen' with
  | nil =>
    cases mode with
    | strict => cases h
    | lenient => exact h
  | cons level outer ih =>
    rw [lookupFrom] at h ⊢
    split at h
    · exact h
    · exact ih _ h
    · exact h

/-- A column that the query itself does not have is looked up around it. -/
theorem ResolveContext.param_outside {p : Param TypeExpr} {typed : Param SqlType}
    (hp : p.type = .column schema table column span)
    (hhits : level.hits schema table column .other = [])
    (h : ctx.param (level :: outer) p = .ok typed) : ctx.param outer p = .ok typed := by
  rw [param, hp] at h ⊢
  obtain ⟨type, htype, h⟩ := bind_eq_ok h
  have hout : (TypeExpr.column schema table column span).resolve (ctx.typeContext outer .other) =
      .ok type := by
    rw [TypeExpr.resolve, typeContext, Level.lookup, Level.lookupFrom, hhits] at htype
    rw [TypeExpr.resolve]
    exact Level.recover_lookupFrom [] htype
  rw [hout]
  exact h

/-- The sources of a query are typed under their names. -/
theorem Interface.fits_resolveList {tables : Level}
    {between : ViewColumns} {nested : List (Param SqlType)}
    (htables : (ctx.tables q.sources).run.run views = (.ok tables, between))
    (h : (Source.resolveList ctx q.sources outer tables).run.run between =
      (.ok (level, nested), known)) (own : Bool) : Frame.Fits ⟨q, level, own⟩ := by
  intro s hs
  obtain ⟨found, rfl, hfrom⟩ := Source.resolveList_run h
  rcases mem_append.1 hs with hs | hs
  · exact Frame.fits_tables htables s hs
  · obtain ⟨source, hsource, hs⟩ := exists_of_forall₂ hfrom hs
    exact ⟨source, mem_of_mem_filter hsource, hs.fits⟩

theorem Frame.hits_eq_nil {f : Frame} (hf : f.Fits) {target : String}
    (h : ∀ source ∈ f.query.sources, source.isNamed target = false) (schema : Option String)
    (column : String) (position : ColumnPosition) :
    f.visible.hits schema (some target) column position = [] := by
  refine eq_nil_iff_forall_not_mem.2 fun ⟨s, c⟩ hmem => ?_
  obtain ⟨hs, hmeant, -⟩ := Level.mem_having.1 hmem
  obtain ⟨raw, hraw, hsraw⟩ := exists_of_mem_visible hs
  obtain ⟨source, hsource, hname, -⟩ := hf raw hraw
  have hsame : s.name = source.name := by
    rw [hsraw, ← hname]
    split <;> rfl
  have hnamed := h source hsource
  rw [Source.isNamed, ← hsame] at hnamed
  simp [TypedSource.isMeant, hnamed] at hmeant

end Lookups

theorem Param.filter_eq_nil_of_gathered {params : List (Param SqlType)}
    (h : Gathered name params []) : params.filter (·.name == name) = [] := by
  generalize hps : ([] : List (Param SqlType)) = ps at h
  induction h with
  | nil => rfl
  | other hne _ ih => rw [filter_cons_of_neg (by simpa using hne), ih hps]
  | entry _ hmerged => exact absurd (append_eq_nil_iff.1 hps.symm).1 hmerged.ne_nil

/-- A parameter that has one entry in a query, and none in the queries inside, has the type of
that entry. -/
theorem Interface.filter_resolveIn {ctx : ResolveContext} {outer : List Level}
    {typed : TypedInterface} {e : Param TypeExpr}
    (hown : q.params.filter (·.name == name) = [e])
    (hinside : (Source.listEntries q.sources).filter (·.name == name) = [])
    (h : (q.resolveIn ctx outer).run.run views = (.ok typed, known)) :
    ∃ f : Frame, f.query = q ∧ f.Fits ∧ ∃ p, ctx.param (f.visible :: outer) e = .ok p ∧
      typed.params.filter (·.name == name) = [p] := by
  obtain ⟨tables, between, level, nested, htables, hlist, hfinish⟩ := exists_of_resolveIn h
  obtain ⟨_, own, -, htyped, rfl⟩ := ResolveContext.exists_of_finish_eq_ok hfinish
  have hfilter : List.Forall₂
      (fun e p => ctx.param (Frame.visible ⟨q, level, true⟩ :: outer) e = .ok p)
      (q.params.filter (·.name == name)) (own.filter (·.name == name)) :=
    rel_filter (fun e p h => by
      have hname : p.name = e.name := congrArg Param.name (ResolveContext.param_eq_ok h)
      simp [hname]) htyped
  rw [hown] at hfilter
  obtain ⟨ps, hps, hgathered⟩ := (Source.merges_resolveList q.sources hlist).gathered name
  rw [hinside] at hps
  cases hps
  rw [ResolveContext.params_foldl_addParam, Param.filter_insertAll (Nat.zero_le _),
    filter_append, Param.filter_eq_nil_of_gathered hgathered]
  cases hf : own.filter (·.name == name) with
  | nil => rw [hf] at hfilter; cases hfilter
  | cons p rest =>
    rw [hf] at hfilter
    obtain ⟨hp, hrest⟩ := forall₂_cons.1 hfilter
    cases hrest
    exact ⟨_, rfl, fits_resolveList htables hlist true, p, hp, rfl⟩

/-- What a run notes in an empty scope is what the interface lists. -/
theorem Passes.finish {expected : List TypeExpr} {e : Param TypeExpr}
    (h : Passes name [e] n (.fresh [] expected) t) :
    t.finish.params.filter (·.name == name) = [e] ∧
      (Source.listEntries t.finish.sources).filter (·.name == name) = [] := by
  obtain ⟨g, hg, hnoted⟩ := h.noted
  obtain ⟨hparams, hsources⟩ := Prod.mk.inj hnoted
  rw [Scope.finish, map_eq_nil_iff.1 (congrArg View.named h.view)]
  refine ⟨?_, ?_⟩
  · show t.interface.params.filter _ = _
    rw [hg.params, Param.filter_insertAll (Nat.zero_le _), hparams]
    rfl
  · show (Source.listEntries t.interface.sources).filter _ = _
    rw [hg.sources]
    exact hsources

/-- How an `INSERT` of a query is resolved: the query in the scope of the table. -/
theorem exists_of_resolve_inserting {table : ObjectName} {span : Span} {mode : ResolveMode}
    (h : ((inserting table asName columns (.query query) span).interface []).resolve store mode =
      .ok loaded) :
    ∃ found views known typed,
      ((ResolveContext.ofStore store mode).table (targetSource table asName)).run.run [] =
        (.ok found, views) ∧
      ((query.inserted (targetSource table asName).name columns).resolveIn (.ofStore store mode)
        [found.toList]).run.run views = (.ok typed, known) ∧
      loaded.params = Param.insertAll SqlType.union [] typed.params := by
  rw [interface_inserting_query] at h
  obtain ⟨tables, between, level, nested, htables, hlist, hfinish⟩ := Interface.exists_of_resolveIn
    (Prod.ext h rfl : Interface.resolveWith store mode _ [] = (.ok loaded, _))
  rw [ResolveContext.tables] at htables
  obtain ⟨found, views, hfound, htables⟩ := Resolve.run_bind_ok htables
  cases htables
  rw [Source.resolveList] at hlist
  obtain ⟨_, _, htarget, hlist⟩ := Resolve.run_bind_ok hlist
  cases htarget
  obtain ⟨_, _, hquery, hlist⟩ := Resolve.run_bind_ok hlist
  cases hlist
  rw [Source.resolveList] at hquery
  obtain ⟨_, _, hquery, hlist⟩ := Resolve.run_bind_ok hquery
  cases hlist
  rw [Source.resolve] at hquery
  obtain ⟨typed, _, hquery, hlist⟩ := Resolve.run_bind_ok hquery
  cases hlist
  obtain ⟨_, _, -, hown, rfl⟩ := ResolveContext.exists_of_finish_eq_ok hfinish
  cases hown
  simp only [Option.toList_none, append_nil, nil_append] at hquery ⊢
  exact ⟨found, _, _, typed, hfound, hquery, ResolveContext.params_foldl_addParam _ _⟩

theorem resolve_inserting_param {table : ObjectName} {column : Ident}
    {rows span : Span} {mode : ResolveMode}
    {found : Option TypedSource} {p : Param SqlType}
    (hfound : ((ResolveContext.ofStore store mode).table (targetSource table asName)).run.run [] =
      (.ok found, views))
    (hp : (ResolveContext.ofStore store mode).param [found.toList]
      (ref.entry (targetColumn (targetSource table asName).name column)) = .ok p) :
    ∃ alone, ((inserting table asName [column] (.values ⟨[[.param ref]], rows⟩) span).interface
      []).resolve store mode = .ok alone ∧ alone.params = [p] := by
  have htables : ((ResolveContext.ofStore store mode).tables [targetSource table asName]).run.run []
      = (.ok (found.toList ++ []), views) := by
    rw [ResolveContext.tables, Resolve.run_bind_of_ok _ hfound]
    rfl
  have hlevel : (found.toList ++ [] ++ [] : Level).setNullable [] = found.toList := by
    simp [Level.setNullable]
  refine ⟨⟨Param.insertAll SqlType.union [] [p], []⟩, ?_, ?_⟩
  · rw [interface_inserting_param, Interface.resolve, Interface.resolveWith, Interface.resolveIn,
      Resolve.run_bind_of_ok _ htables]
    show ResolveContext.finish _ (Level.setNullable _ []) [] [_] [] [] = _
    rw [hlevel, ResolveContext.finish, mapM_cons, hp]
    rfl
  · exact mergeSort_singleton ..

/-- A parameter that is selected for a column has the same type as one that is inserted into it by
itself, if the query that selects it has no source with the name of the table. -/
theorem Statement.inserted_param {table : ObjectName} {asName : Option Ident}
    {columns : List Ident} {query : Query} {select : Select} {e : Expr} {label : Option Ident}
    {itemSpan : Span} {ref : ParamRef} {column : Ident} {store : Store} {mode : ResolveMode}
    {loaded : TypedInterface} (before after : List SelectItem) (span rows : Span)
    (hwith : query.withClause = none) (hbody : query.body = .select select)
    (hitems : select.items = before ++ .expr e label itemSpan :: after)
    (href : e.param? = some ref) (hcolumn : columns[before.length]? = some column)
    (honce : query.params.countP (·.name == ref.name) = 1)
    (hnames : ∀ source ∈ (query.inserted (targetSource table asName).name columns).sources,
      source.isNamed (targetSource table asName).name = false)
    (hr : ((inserting table asName columns (.query query) span).interface []).resolve store mode =
      .ok loaded) :
    ∃ alone p, ((inserting table asName [column] (.values ⟨[[.param ref]], rows⟩) span).interface
        []).resolve store mode = .ok alone ∧ alone.params = [p] ∧
      loaded.params.filter (·.name == ref.name) = [p] := by
  obtain ⟨n, hpasses⟩ := passes_extractQuery hwith hbody hitems href honce
    (targetColumns (targetSource table asName).name columns)
  rw [targetColumns, getElem?_map, hcolumn] at hpasses
  obtain ⟨hown, hinside⟩ := hpasses.finish
  obtain ⟨found, views, known, typed, hfound, htyped, hparams⟩ := exists_of_resolve_inserting hr
  obtain ⟨f, hquery, hf, p, hp, hfilter⟩ := Interface.filter_resolveIn hown hinside htyped
  have hhits := f.hits_eq_nil hf (by rw [hquery]; exact hnames) none column.value .other
  obtain ⟨alone, halone, hone⟩ := resolve_inserting_param hfound
    (ResolveContext.param_outside rfl hhits hp)
  refine ⟨alone, p, halone, hone, ?_⟩
  rw [hparams, Param.filter_insertAll (Nat.zero_le _), hfilter]
  rfl

/-- `INSERT INTO b (label, bid) SELECT 'x', $p FROM a` -/
def insertSecond : Statement :=
  inserting ⟨none, ⟨"b", false, ⟨12, 13⟩⟩, ⟨12, 13⟩⟩ none
    [⟨"label", false, ⟨15, 20⟩⟩, ⟨"bid", false, ⟨22, 25⟩⟩]
    (.query
      { withClause := none
        body := .select
          { distinct := .absent
            items := [.expr (.literal (.string "x") ⟨34, 37⟩) none ⟨34, 37⟩,
              .expr (.param ⟨"p", false, false, [], ⟨39, 41⟩⟩) none ⟨39, 41⟩]
            relations := [.table ⟨none, ⟨"a", false, ⟨47, 48⟩⟩, ⟨47, 48⟩⟩ none ⟨47, 48⟩]
            selection := none, groupBy := [], having := none, windows := [], span := ⟨27, 48⟩ }
        orderBy := [], limit := none, offset := none, locking := [], span := ⟨27, 48⟩ })
    ⟨0, 48⟩

/-- `INSERT INTO b (bid) VALUES ($p)` -/
def insertAlone : Statement :=
  inserting ⟨none, ⟨"b", false, ⟨12, 13⟩⟩, ⟨12, 13⟩⟩ none [⟨"bid", false, ⟨22, 25⟩⟩]
    (.values ⟨[[.param ⟨"p", false, false, [], ⟨39, 41⟩⟩]], ⟨27, 41⟩⟩) ⟨0, 48⟩

theorem Statement.inserted_param_second : ∃ loaded alone p,
    (insertSecond.interface []).resolve Interface.Visits.labels .strict = .ok loaded ∧
      (insertAlone.interface []).resolve Interface.Visits.labels .strict = .ok alone ∧
      alone.params = [p] ∧ loaded.params.filter (·.name == "p") = [p] := by
  have hread : ((insertSecond.interface []).resolve Interface.Visits.labels .strict).isOk := by
    decide +kernel
  obtain ⟨loaded, hr⟩ := exists_of_isOk hread
  obtain ⟨alone, p, h⟩ := inserted_param [_] [] ⟨0, 48⟩ ⟨27, 41⟩ rfl rfl rfl rfl rfl rfl
    (by decide +kernel) hr
  exact ⟨loaded, alone, p, hr, h⟩

end SqlTyping
