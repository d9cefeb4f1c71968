import SqlTyping.Proofs.Outcome
import SqlTyping.Proofs.Resolution.References
import SqlTyping.Proofs.Types.Coherence

/-!
# What answers a column

Types are resolved in scopes that come about one after the other while an interface is resolved.
`Visits` follows this and says for each scope which queries its levels belong to. In a resolution
that succeeds every column is answered, or is unknown in lenient mode (`Interface.Visits.answered`).
Without qualifier it is answered by a source that is no result only where no result source has it
(`Interface.Visits.unqualified`). A source on the optional side of a join makes it nullable only
where the reference stands in the query of the join itself (`Interface.Visits.optional`).
-/

namespace SqlTyping

open List

variable {ctx : ResolveContext} {views known : ViewColumns}

variable {params nested : List (Param SqlType)} {level after : Level} {typed : TypedInterface}
  {q : Interface} {source : Source} {sources rest : List Source} {t : TypeExpr} {s : TypedSource}

/-! ## Answers -/

namespace Level

variable {ref : ColumnRef} {position : ColumnPosition} {level : Level} {levels : List Level}
  {depth : Nat} {s : TypedSource} {c : Field SqlType}

/-- The source and the column that a reference finds, `depth` levels out. -/
inductive Answers (ref : ColumnRef) :
    ColumnPosition → List Level → (depth : Nat) → TypedSource → Field SqlType → Prop
  | here {position level outer s c} :
      level.hits ref.schema ref.table ref.column position = [(s, c)] →
      Answers ref position (level :: outer) 0 s c
  | outside {position level outer depth s c} :
      level.hits ref.schema ref.table ref.column position = [] →
      Answers ref .other outer depth s c → Answers ref position (level :: outer) (depth + 1) s c

theorem lookupFrom_eq_ok (ref : ColumnRef) {span : Span} {seen : List String} {t : SqlType}
    (h : lookupFrom ref.schema ref.table ref.column span levels position seen = .ok t) :
    ∃ depth s c, Answers ref position levels depth s c ∧ c.value = t := by
  induction levels generalizing position seen with
  | nil => cases h
  | cons level outer ih =>
    rw [lookupFrom] at h
    split at h
    · next found hhits =>
      cases h
      exact ⟨0, _, found, .here hhits, rfl⟩
    · next hhits =>
      obtain ⟨depth, s, c, ha, ht⟩ := ih h
      exact ⟨depth + 1, s, c, .outside hhits ha, ht⟩
    · cases h

theorem mem_having {p : TypedSource → Bool} {column : String} :
    (s, c) ∈ having (level.filter p) column ↔
      s ∈ level ∧ p s = true ∧ s.column? column = some c := by
  simp only [having, mem_filterMap, mem_filter, Option.map_eq_some_iff, Prod.mk.injEq]
  constructor
  · rintro ⟨_, ⟨hs, hp⟩, _, hc, rfl, rfl⟩
    exact ⟨hs, hp, hc⟩
  · rintro ⟨hs, hp, hc⟩
    exact ⟨s, ⟨hs, hp⟩, c, hc, rfl, rfl⟩

/-- A reference finds columns of its name. -/
theorem mem_hits (h : (s, c) ∈ level.hits ref.schema ref.table ref.column position) :
    s ∈ level ∧ s.column? ref.column = some c := by
  unfold hits at h
  split at h
  · exact (mem_having.1 h).imp_right And.right
  · split at h
    · exact (mem_having.1 h).imp_right And.right
    · exact (mem_having.1 h).imp_right And.right

/-- The level that answers, and whether the reference gets there from a level inside. -/
theorem Answers.exists_hits (h : Answers ref position levels depth s c) :
    ∃ level position', levels[depth]? = some level ∧
      level.hits ref.schema ref.table ref.column position' = [(s, c)] ∧
      (position' = .other → position = .other ∨ 0 < depth) := by
  induction h with
  | @here position level _ _ _ hhits => exact ⟨level, position, rfl, hhits, .inl⟩
  | outside _ _ ih =>
    obtain ⟨level, position', hlevel, hhits, -⟩ := ih
    exact ⟨level, position', hlevel, hhits, fun _ => .inr (Nat.succ_pos _)⟩

/-- The sources that are no result and have the column. -/
def fallback (level : Level) (column : String) : Level :=
  level.filter fun s => !s.isResult && (s.column? column).isSome

theorem map_fst_having (level : Level) (column : String) :
    (having level column).map (·.1) = level.filter fun s => (s.column? column).isSome := by
  induction level with
  | nil => rfl
  | cons s rest ih =>
    rw [filter_cons, ← ih, having, filterMap_cons]
    cases s.column? column <;> rfl

/-- Without qualifier, a source that is no result is found only if it is the only one that has the
column, and outside of result columns. -/
theorem hits_unqualified (href : ref.table = none)
    (h : level.hits ref.schema ref.table ref.column position = [(s, c)]) :
    s.isResult = true ∨ position = .other ∧
      (∀ r ∈ level, r.isResult = true → r.column? ref.column = none) ∧
      level.fallback ref.column = [s] := by
  unfold hits at h
  rw [href] at h
  dsimp only at h
  split at h
  · next hnone =>
    refine .inr ⟨rfl, fun r hr hresult => ?_, ?_⟩
    · cases hc : r.column? ref.column with
      | none => rfl
      | some found =>
        have hmem := mem_having.2 ⟨hr, hresult, hc⟩
        rw [hnone] at hmem
        cases hmem
    · have hfst := congrArg (List.map Prod.fst) h
      rw [map_fst_having, filter_filter] at hfst
      exact (filter_congr fun r _ => Bool.and_comm _ _).trans hfst
  · exact .inl (mem_having.1 (h ▸ mem_singleton_self _)).2.1

end Level

/-! ## Scopes -/

/-- A query that is being resolved, and those of its sources that are in scope. -/
structure Frame where
  query : Interface
  /-- The sources as they are typed on their own, whatever joins they are in. -/
  level : Level
  /-- Does the type that is resolved stand in the query itself, and not in one of its sources? -/
  own : Bool

namespace Frame

/-- The sources as they are seen. -/
def visible (f : Frame) : Level :=
  if f.own then f.level.setNullable f.query.nullableSources else f.level

/-- The typed sources are sources of the query. -/
def Fits (f : Frame) : Prop :=
  ∀ s ∈ f.level, ∃ source ∈ f.query.sources, s.name = source.name ∧ s.isResult = source.isResult

theorem exists_of_mem_visible {f : Frame} (h : s ∈ f.visible) :
    ∃ raw ∈ f.level, s = if f.own && f.query.isNullable raw.name then raw.setNullable else raw := by
  unfold visible at h
  cases hown : f.own with
  | false => exact ⟨s, by simpa [hown] using h, by simp⟩
  | true =>
    rw [hown] at h
    obtain ⟨raw, hraw, rfl⟩ := mem_map.1 h
    exact ⟨raw, hraw, by simp [Interface.isNullable]⟩

end Frame

theorem TypedSource.column?_setNullable (s : TypedSource) (column : String) :
    s.setNullable.column? column =
      (s.column? column).map fun c => { c with value := c.value.withNullable true } := by
  unfold column? setNullable
  rw [find?_map]
  rfl

/-- A type is resolved in the scope `frames`, where the sources `rest` of the query are still to be
typed and `level` are those that are. -/
inductive Visits (ctx : ResolveContext) : (q : Interface) → (rest : List Source) →
    (outer : List Frame) → (level : Level) → (views : ViewColumns) → (frames : List Frame) →
    ColumnPosition → TypeExpr → Prop
  | result {q outer level views column} : column ∈ q.results →
      Visits ctx q [] outer level views (⟨q, level, true⟩ :: outer) .result column.type
  | param {q outer level views p} : p ∈ q.params →
      Visits ctx q [] outer level views (⟨q, level, true⟩ :: outer) .other p.type
  | values {q name columns types isResult rest outer level views t} : t ∈ types →
      Visits ctx q (.values name columns types isResult :: rest) outer level views
        (⟨q, level, false⟩ :: outer) .other t
  | query {q name inner isResult rest outer level views tables known frames position t} :
      (ctx.tables inner.sources).run.run views = (.ok tables, known) →
      Visits ctx inner inner.sources (⟨q, level, false⟩ :: outer) tables known frames position t →
      Visits ctx q (.query name inner isResult :: rest) outer level views frames position t
  | next {q source rest outer level views found params known frames position t} :
      (source.resolve ctx (outer.map Frame.visible) level).run.run views =
        (.ok (found, params), known) →
      Visits ctx q rest outer (level ++ found) known frames position t →
      Visits ctx q (source :: rest) outer level views frames position t

/-- A type is resolved in the scope `frames` while the interface is resolved. -/
def Interface.Visits (ctx : ResolveContext) (q : Interface) (frames : List Frame)
    (position : ColumnPosition) (t : TypeExpr) : Prop :=
  ∃ tables known, (ctx.tables q.sources).run.run [] = (.ok tables, known) ∧
    SqlTyping.Visits ctx q q.sources [] tables known frames position t

/-! ### Typed sources and the sources that they come from -/

/-- The typed source is what the source gives when it is resolved, among the tables or in the scope
of the sources before it. -/
inductive TypedSource.From (ctx : ResolveContext) (outer : List Level) (s : TypedSource)
    (source : Source) : Prop where
  | table {views known : ViewColumns} :
      (ctx.table source).run.run views = (.ok (some s), known) → From ctx outer s source
  | nested {level : Level} {views known : ViewColumns} {params : List (Param SqlType)} :
      (source.resolve ctx outer level).run.run views = (.ok ([s], params), known) →
      From ctx outer s source

/-- Is the source no table, or one that the store has? -/
def Store.hasSource (store : Store) : Source → Bool
  | .table schema name _ _ _ =>
    (store.table? ⟨schema, name⟩ matches some (.table ..) | some (.view ..))
  | .query .. | .values .. => true

theorem Store.hasSource_of_isNamedQuery {store : Store} (h : source.isNamedQuery = true) :
    store.hasSource source = true := by
  cases source with
  | table => cases h
  | query | values => rfl

/-- Tables that are not found are left out, which does not happen in strict mode. -/
theorem ResolveContext.table_run {found : Option TypedSource}
    (h : (ctx.table source).run.run views = (.ok found, known)) :
    (∀ s ∈ found, source.isNamedQuery = false ∧ s.name = source.name ∧
      s.isResult = source.isResult) ∧
    found.isSome = (!source.isNamedQuery && ctx.store.hasSource source) ∧
    (ctx.mode = .strict → ctx.store.hasSource source) := by
  cases source with
  | query | values =>
    cases h
    exact ⟨by simp, rfl, fun _ => rfl⟩
  | table schema name asName isResult span =>
    rw [table] at h
    split at h
    case h_1 hstore | h_2 hstore =>
      obtain ⟨columns, _, -, h⟩ := Resolve.run_bind_ok h
      cases h
      simp [Store.hasSource, hstore, Source.isNamedQuery, Source.name, Source.isResult]
    case h_3 =>
      split at h
      · cases h
        next hmode =>
          have hnot : ctx.mode ≠ .strict := by simp [hmode]
          simp [Store.hasSource, Source.isNamedQuery, hnot]
      · cases h

/-- The tables of a list of sources that the store has, in their order. -/
theorem ResolveContext.tables_run (h : (ctx.tables sources).run.run views = (.ok level, known))
    (outer : List Level) :
    List.Forall₂ (TypedSource.From ctx outer) level
        ((sources.filter (!·.isNamedQuery)).filter ctx.store.hasSource) ∧
      (ctx.mode = .strict → ∀ source ∈ sources, ctx.store.hasSource source) := by
  induction sources generalizing views level with
  | nil =>
    cases h
    exact ⟨.nil, nofun⟩
  | cons source rest ih =>
    obtain ⟨found, _, hfound, h⟩ := Resolve.run_bind_ok h
    obtain ⟨others, _, hothers, h⟩ := Resolve.run_bind_ok h
    cases h
    obtain ⟨hfrom, hall⟩ := ih hothers
    obtain ⟨-, hsome, hstrict⟩ := table_run hfound
    refine ⟨?_, fun hmode => forall_mem_cons.2 ⟨hstrict hmode, hall hmode⟩⟩
    rw [filter_filter] at hfrom ⊢
    cases found with
    | none => rwa [filter_cons_of_neg (by simpa [and_comm] using hsome)]
    | some s =>
      rw [filter_cons_of_pos (by simpa [and_comm] using hsome)]
      exact .cons (.table hfound) hfrom

theorem Source.resolve_run {outer : List Level} {found : Level}
    (h : (source.resolve ctx outer level).run.run views = (.ok (found, params), known)) :
    source.isNamedQuery = false ∧ found = [] ∨ source.isNamedQuery = true ∧
      ∃ s, found = [s] ∧ s.name = source.name ∧ s.isResult = source.isResult := by
  cases source with
  | table =>
    cases h
    exact .inl ⟨rfl, rfl⟩
  | query | values =>
    obtain ⟨typed, _, -, h⟩ := Resolve.run_bind_ok h
    cases h
    exact .inr ⟨rfl, _, rfl, rfl, rfl⟩

theorem TypedSource.From.fits {outer : List Level} (h : s.From ctx outer source) :
    s.name = source.name ∧ s.isResult = source.isResult := by
  cases h with
  | table h => exact ((ResolveContext.table_run h).1 s rfl).2
  | nested h =>
    rcases Source.resolve_run h with ⟨-, h⟩ | ⟨-, _, h, hfits⟩
    · cases h
    · cases h
      exact hfits

/-- The sources that are no tables come after those that are there already. -/
theorem Source.resolveList_run {outer : List Level}
    (h : (resolveList ctx sources outer level).run.run views = (.ok (after, params), known)) :
    ∃ found, after = level ++ found ∧
      List.Forall₂ (TypedSource.From ctx outer) found (sources.filter (·.isNamedQuery)) := by
  induction sources generalizing views level params with
  | nil =>
    cases h
    exact ⟨[], (append_nil _).symm, .nil⟩
  | cons source rest ih =>
    obtain ⟨⟨first, own⟩, _, hfirst, h⟩ := Resolve.run_bind_ok h
    obtain ⟨⟨_, more⟩, _, hrest, h⟩ := Resolve.run_bind_ok h
    cases h
    obtain ⟨found, rfl, hfrom⟩ := ih hrest
    refine ⟨first ++ found, append_assoc .., ?_⟩
    rcases resolve_run hfirst with ⟨hnamed, rfl⟩ | ⟨hnamed, s, rfl, -⟩
    · rwa [filter_cons_of_neg (by simp [hnamed])]
    · rw [filter_cons_of_pos hnamed]
      exact .cons (.nested hfirst) hfrom

theorem Frame.fits_tables (h : (ctx.tables q.sources).run.run views = (.ok level, known)) :
    Frame.Fits ⟨q, level, false⟩ := by
  intro s hs
  obtain ⟨source, hsource, hs⟩ := exists_of_forall₂ (ResolveContext.tables_run h []).1 hs
  exact ⟨source, mem_of_mem_filter (mem_of_mem_filter hsource), hs.fits⟩

/-- The typed sources of a scope belong to the queries of the scope, and only the innermost query
can be the one that the type stands in. -/
theorem Visits.fits {outer frames : List Frame} {position : ColumnPosition}
    (h : Visits ctx q rest outer level views frames position t)
    (hlevel : Frame.Fits ⟨q, level, false⟩) (hrest : rest ⊆ q.sources)
    (houter : ∀ f ∈ outer, f.Fits ∧ f.own = false) :
    ∃ f outer', frames = f :: outer' ∧ f.Fits ∧ ∀ f ∈ outer', f.Fits ∧ f.own = false := by
  induction h with
  | result | param | values => exact ⟨_, _, rfl, hlevel, houter⟩
  | query htables _ ih =>
    exact ih (Frame.fits_tables htables) (List.Subset.refl _)
      (forall_mem_cons.2 ⟨⟨hlevel, rfl⟩, houter⟩)
  | @next q source rest _ _ _ found _ _ _ _ _ hfound _ ih =>
    obtain ⟨hsource, hrest⟩ := cons_subset.1 hrest
    refine ih (fun s hs => ?_) hrest houter
    rcases mem_append.1 hs with hs | hs
    · exact hlevel s hs
    · rcases Source.resolve_run hfound with ⟨-, rfl⟩ | ⟨-, s', rfl, hfits⟩
      · cases hs
      · obtain rfl := mem_singleton.1 hs
        exact ⟨source, hsource, hfits⟩

/-! ## Columns that are looked up -/

/-- The reference is answered. In lenient mode it need not be. -/
def TypeContext.Finds (ctx : TypeContext) (ref : ColumnRef) : Prop :=
  (∃ depth s c, Level.Answers ref ctx.position ctx.levels depth s c) ∨ ctx.mode = .lenient

/-- A type that is resolved had all its parts resolved. -/
theorem TypeExpr.exists_resolve_part {ctx : TypeContext} {t v : TypeExpr} {u : SqlType}
    (h : t.resolve ctx = .ok u) (hv : v ∈ t.parts) : ∃ w, v.resolve ctx = .ok w := by
  cases t <;> simp only [parts, not_mem_nil, mem_cons, or_false] at hv
  case function | functionArgument | union | coalesce =>
    obtain ⟨_, hlist, -⟩ := bind_eq_ok h
    rw [resolveList_eq_mapM] at hlist
    obtain ⟨w, -, hw⟩ := exists_of_forall₂ (forall₂_of_mapM_eq_ok hlist) hv
    exact ⟨w, hw⟩
  case operator | cast =>
    obtain ⟨_, hleft, h⟩ := bind_eq_ok h
    obtain ⟨_, hright, -⟩ := bind_eq_ok h
    rcases hv with rfl | rfl
    · exact ⟨_, hleft⟩
    · exact ⟨_, hright⟩
  case array | asArray | arrayItem | fieldAccess | optional =>
    obtain ⟨w, hw, -⟩ := bind_eq_ok h
    exact ⟨w, hv ▸ hw⟩
  case object =>
    obtain ⟨⟨name, t⟩, hf, rfl⟩ := mem_map.1 hv
    obtain ⟨_, hfields, -⟩ := bind_eq_ok h
    rw [resolveFields_eq_mapM] at hfields
    obtain ⟨_, -, hfield⟩ := exists_of_forall₂ (forall₂_of_mapM_eq_ok hfields) hf
    obtain ⟨w, hw, -⟩ := bind_eq_ok hfield
    exact ⟨w, hw⟩

/-- A type that is resolved had all its columns looked up. -/
theorem TypeExpr.finds_columnRefs {ctx : TypeContext} (t : TypeExpr) {u : SqlType}
    (h : t.resolve ctx = .ok u) : ∀ ref ∈ t.columnRefs, ctx.Finds ref := by
  induction t using induction_parts generalizing u with
  | step t ih =>
    intro ref href
    rcases mem_columnRefs.1 href with ⟨span, rfl⟩ | ⟨v, hv, href⟩
    · rw [TypeExpr.resolve] at h
      cases hl : Level.lookup ctx.levels ref.schema ref.table ref.column span ctx.position with
      | ok found =>
        obtain ⟨depth, s, c, ha, -⟩ := Level.lookupFrom_eq_ok ref hl
        exact .inl ⟨depth, s, c, ha⟩
      | error e =>
        rw [hl, recover] at h
        split at h
        · next hmode => exact .inr (by simpa using (Bool.and_eq_true_iff.1 hmode).1)
        · cases h
    · obtain ⟨w, hw⟩ := exists_resolve_part h hv
      exact ih v hv hw ref href

theorem ResolveContext.finds_valueColumns {levels : List Level} {names : Option (List String)}
    {types : List TypeExpr} {i : Nat} {columns : List (Field SqlType)}
    (h : ctx.valueColumns levels names i types = .ok columns) (ht : t ∈ types) :
    ∀ ref ∈ t.columnRefs, (ctx.typeContext levels .other).Finds ref := by
  induction types generalizing i columns with
  | nil => cases ht
  | cons first rest ih =>
    obtain ⟨_, hfirst, h⟩ := bind_eq_ok h
    obtain ⟨_, hrest, -⟩ := bind_eq_ok h
    rcases mem_cons.1 ht with rfl | ht
    · exact t.finds_columnRefs hfirst
    · exact ih hrest ht

/-- Where a resolution succeeds, every column of the types that it visits is looked up. -/
theorem Visits.finds {outer frames : List Frame} {position : ColumnPosition}
    (h : Visits ctx q rest outer level views frames position t)
    (hlist : (Source.resolveList ctx rest (outer.map Frame.visible) level).run.run views =
      (.ok (after, params), known))
    (hfinish : ctx.finish (after.setNullable q.nullableSources) (outer.map Frame.visible) q.params
      q.results nested = .ok typed) :
    ∀ ref ∈ t.columnRefs, (ctx.typeContext (frames.map Frame.visible) position).Finds ref := by
  induction h generalizing after params nested typed known with
  | @result q outer level _ column hcolumn =>
    cases hlist
    obtain ⟨_, _, hresults, -, -⟩ := ResolveContext.exists_of_finish_eq_ok hfinish
    obtain ⟨_, -, hcolumn⟩ := exists_of_forall₂ hresults hcolumn
    obtain ⟨name, type, span⟩ := column
    unfold ResolveContext.resultColumns at hcolumn
    split at hcolumn
    · next hstar =>
      cases hstar
      exact nofun
    · next hother =>
      cases hother
      obtain ⟨_, htype, -⟩ := bind_eq_ok hcolumn
      exact type.finds_columnRefs htype
  | @param q outer level _ p hp =>
    cases hlist
    obtain ⟨_, _, -, hparams, -⟩ := ResolveContext.exists_of_finish_eq_ok hfinish
    obtain ⟨_, -, hp⟩ := exists_of_forall₂ hparams hp
    obtain ⟨_, htype, -⟩ := bind_eq_ok hp
    exact p.type.finds_columnRefs htype
  | values ht =>
    rw [Source.resolveList, Source.resolve] at hlist
    obtain ⟨_, _, hfirst, -⟩ := Resolve.run_bind_ok hlist
    obtain ⟨_, _, hcolumns, -⟩ := Resolve.run_bind_ok hfirst
    exact ResolveContext.finds_valueColumns (congrArg Prod.fst hcolumns) ht
  | query htables _ ih =>
    rw [Source.resolveList, Source.resolve] at hlist
    obtain ⟨_, _, hfirst, -⟩ := Resolve.run_bind_ok hlist
    obtain ⟨_, _, hinner, -⟩ := Resolve.run_bind_ok hfirst
    obtain ⟨_, _, _, _, htables', hlist, hfinish⟩ := Interface.exists_of_resolveIn hinner
    obtain ⟨⟨⟩, rfl⟩ := Prod.mk.inj (htables.symm.trans htables')
    exact ih hlist hfinish
  | next hfound _ ih =>
    rw [Source.resolveList, Resolve.run_bind_of_ok _ hfound] at hlist
    obtain ⟨⟨_, _⟩, _, hlist, h⟩ := Resolve.run_bind_ok hlist
    cases h
    exact ih hlist hfinish

namespace Interface.Visits

variable {store : Store} {mode : ResolveMode} {q : Interface} {loaded : TypedInterface}
  {frames : List Frame} {position : ColumnPosition} {t : TypeExpr} {ref : ColumnRef} {depth : Nat}
  {s : TypedSource} {c : Field SqlType}

theorem answered (h : q.Visits (.ofStore store mode) frames position t)
    (hr : q.resolve store mode = .ok loaded) (href : ref ∈ t.columnRefs) :
    (∃ depth s c, Level.Answers ref position (frames.map Frame.visible) depth s c) ∨
      mode = .lenient := by
  have hrun : (q.resolveIn (.ofStore store mode) []).run.run [] =
      (.ok loaded, (q.resolveWith store mode []).2) := Prod.ext hr rfl
  obtain ⟨tables, known, htables, hvisits⟩ := h
  obtain ⟨_, _, _, _, htables', hlist, hfinish⟩ := exists_of_resolveIn hrun
  obtain ⟨⟨⟩, rfl⟩ := Prod.mk.inj (htables.symm.trans htables')
  exact hvisits.finds hlist hfinish ref href

/-- The query that answers a reference. The reference stands in the query itself only if no level is
between. -/
theorem exists_frame (h : q.Visits ctx frames position t)
    (ha : Level.Answers ref position (frames.map Frame.visible) depth s c) :
    ∃ f position', frames[depth]? = some f ∧ f.Fits ∧ (f.own = true → depth = 0) ∧
      f.visible.hits ref.schema ref.table ref.column position' = [(s, c)] ∧
      (position' = .other → position = .other ∨ 0 < depth) := by
  obtain ⟨tables, known, htables, hvisits⟩ := h
  obtain ⟨level, position', hlevel, hhits, hposition⟩ := ha.exists_hits
  rw [getElem?_map] at hlevel
  obtain ⟨f, hf, rfl⟩ := Option.map_eq_some_iff.1 hlevel
  obtain ⟨first, outer, rfl, hfirst, houter⟩ :=
    hvisits.fits (Frame.fits_tables htables) (List.Subset.refl _) nofun
  cases depth with
  | zero =>
    cases hf
    exact ⟨f, position', rfl, hfirst, fun _ => rfl, hhits, hposition⟩
  | succ depth =>
    obtain ⟨hf', hown⟩ := houter f (mem_of_getElem? hf)
    refine ⟨f, position', hf, hf', fun h => ?_, hhits, hposition⟩
    rw [hown] at h
    cases h

/-- A column without qualifier is answered by a result source of its query or of one around it; or,
where no result source of that query has it, by the only other source that does, unless the
reference stands in a result column of the same query. -/
theorem unqualified (h : q.Visits (.ofStore store mode) frames position t)
    (hr : q.resolve store mode = .ok loaded) (href : ref ∈ t.columnRefs) (hplain : ref.table = none) :
    (mode = .strict →
      ∃ depth s c, Level.Answers ref position (frames.map Frame.visible) depth s c) ∧
    ∀ depth s c, Level.Answers ref position (frames.map Frame.visible) depth s c →
      ∃ f, ∃ source ∈ f.query.sources, frames[depth]? = some f ∧ s ∈ f.visible ∧
        s.name = source.name ∧ s.isResult = source.isResult ∧
        (source.isResult = true ∨ (position = .other ∨ 0 < depth) ∧
          (∀ r ∈ f.visible, r.isResult = true → r.column? ref.column = none) ∧
          f.visible.fallback ref.column = [s]) := by
  refine ⟨fun hmode => (h.answered hr href).resolve_right fun h => ?_, fun depth s c ha => ?_⟩
  · cases hmode.symm.trans h
  obtain ⟨f, position', hf, hfits, -, hhits, hposition⟩ := h.exists_frame ha
  obtain ⟨hs, -⟩ := Level.mem_hits (hhits ▸ mem_singleton_self _)
  obtain ⟨raw, hraw, hsraw⟩ := Frame.exists_of_mem_visible hs
  obtain ⟨source, hsource, hname, hresult⟩ := hfits raw hraw
  -- A nullable source keeps its name and its role.
  obtain ⟨hname', hresult'⟩ : s.name = raw.name ∧ s.isResult = raw.isResult := by
    rw [hsraw]
    split <;> exact ⟨rfl, rfl⟩
  refine ⟨f, source, hsource, hf, hs, hname'.trans hname, hresult'.trans hresult, ?_⟩
  rw [← hresult, ← hresult']
  exact (Level.hits_unqualified hplain hhits).imp_right (And.imp_left hposition)

/-- Orders and their notes. -/
def labels : Store := .ofRecords [
  .table ⟨some "public", "a"⟩ [⟨"id", false, "int4", none⟩],
  .table ⟨some "public", "b"⟩ [⟨"bid", false, "int4", none⟩, ⟨"label", false, "text", none⟩]]

/-- The parameter of `label = $x`. -/
def labelParam : Param TypeExpr :=
  ⟨"x", .column none none "label" ⟨56, 61⟩, [⟨64, 66⟩], false, false, []⟩

/-- `SELECT id FROM a WHERE EXISTS (SELECT label FROM b) AND label = $x` -/
def labelled : Interface where
  sources := [.table none "a" none true ⟨15, 16⟩,
    .query "#subquery2" ⟨[.table none "b" none true ⟨49, 50⟩], [],
      [⟨"label", .column none none "label" ⟨38, 43⟩, ⟨38, 43⟩⟩], []⟩ false]
  params := [labelParam]
  results := [⟨"id", .column none none "id" ⟨7, 9⟩, ⟨7, 9⟩⟩]
  nullableSources := []

theorem unqualified_labelled : ∃ frames depth s c, ∃ source ∈ labelled.sources,
    labelled.Visits (.ofStore labels .strict) frames .other labelParam.type ∧
      Level.Answers ⟨none, none, "label"⟩ .other (frames.map Frame.visible) depth s c ∧
      s.name = source.name := by
  obtain ⟨level, h⟩ : ∃ level, labelled.Visits (.ofStore labels .strict) [⟨labelled, level, true⟩]
      .other labelParam.type :=
    ⟨_, _, _, rfl, .next rfl (.next rfl (.param mem_cons_self))⟩
  obtain ⟨hfound, hall⟩ := h.unqualified rfl (mem_singleton_self _) rfl
  obtain ⟨depth, s, c, ha⟩ := hfound rfl
  obtain ⟨f, source, hsource, hf, -, hname, -⟩ := hall depth s c ha
  obtain rfl := mem_singleton.1 (mem_of_getElem? hf)
  exact ⟨_, depth, s, c, source, hsource, h, ha, hname⟩

/-- A column is typed as its source is on its own. It is nullable also where the source is on the
optional side of a join, but only if the reference stands in the query of the join itself. -/
theorem optional (h : q.Visits (.ofStore store mode) frames position t)
    (hr : q.resolve store mode = .ok loaded) (href : ref ∈ t.columnRefs) :
    (mode = .strict →
      ∃ depth s c, Level.Answers ref position (frames.map Frame.visible) depth s c) ∧
    ∀ depth s c, Level.Answers ref position (frames.map Frame.visible) depth s c →
      ∃ f raw column, frames[depth]? = some f ∧ raw ∈ f.level ∧ s.name = raw.name ∧
        raw.column? ref.column = some column ∧ (f.own = true → depth = 0) ∧
        c.value = column.value.withNullable
          (column.value.nullable || f.own && f.query.isNullable s.name) := by
  refine ⟨fun hmode => (h.answered hr href).resolve_right fun h => ?_, fun depth s c ha => ?_⟩
  · cases hmode.symm.trans h
  obtain ⟨f, position', hf, -, hown, hhits, -⟩ := h.exists_frame ha
  obtain ⟨hs, hc⟩ := Level.mem_hits (hhits ▸ mem_singleton_self _)
  obtain ⟨raw, hraw, hsraw⟩ := Frame.exists_of_mem_visible hs
  cases hopt : f.own && f.query.isNullable raw.name with
  | false =>
    obtain rfl : s = raw := by rw [hsraw, hopt]; rfl
    refine ⟨f, s, c, hf, hraw, rfl, hc, hown, ?_⟩
    rw [hopt, Bool.or_false, SqlType.withNullable_nullable]
  | true =>
    obtain rfl : s = raw.setNullable := by rw [hsraw, hopt]; rfl
    rw [TypedSource.column?_setNullable] at hc
    obtain ⟨column, hcolumn, rfl⟩ := Option.map_eq_some_iff.1 hc
    refine ⟨f, raw, column, hf, hraw, rfl, hcolumn, hown, ?_⟩
    have hopt' : (f.own && f.query.isNullable raw.setNullable.name) = true := hopt
    rw [hopt', Bool.or_true]

/-- The result column of `SELECT b.label AS v`. -/
def lateralColumn : ResultColumn := ⟨"v", .column none (some "b") "label" ⟨63, 70⟩, ⟨63, 75⟩⟩

/-- `SELECT d.v FROM a LEFT JOIN b ON a.id = b.bid, LATERAL (SELECT b.label AS v) d` -/
def lateral : Interface where
  sources := [.table none "a" none true ⟨16, 17⟩, .table none "b" none true ⟨28, 29⟩,
    .query "d" ⟨[], [], [lateralColumn], []⟩ true]
  params := []
  results := [⟨"v", .column none (some "d") "v" ⟨7, 10⟩, ⟨7, 10⟩⟩]
  nullableSources := ["b"]

/-- The label of a missing row is not nullable inside the lateral query. -/
theorem optional_lateral : ∃ frames depth s c,
    lateral.Visits (.ofStore labels .strict) frames .result lateralColumn.type ∧
      Level.Answers ⟨none, some "b", "label"⟩ .result (frames.map Frame.visible) depth s c ∧
      lateral.isNullable s.name = true ∧ c.value.nullable = false := by
  obtain ⟨level, h, hlevel⟩ : ∃ level : Level, lateral.Visits (.ofStore labels .strict)
      [⟨⟨[], [], [lateralColumn], []⟩, [], true⟩, ⟨lateral, level, false⟩] .result
      lateralColumn.type ∧ ∀ raw ∈ level, ∀ column, raw.column? "label" = some column →
        raw.name = "b" ∧ column.value.nullable = false := by
    refine ⟨_, ⟨_, _, rfl, .next rfl (.next rfl (.query rfl (.result mem_cons_self)))⟩, ?_⟩
    refine forall_mem_cons.2 ⟨nofun, forall_mem_cons.2 ⟨fun column hcolumn => ?_, nofun⟩⟩
    cases hcolumn
    exact ⟨rfl, rfl⟩
  obtain ⟨hfound, hall⟩ := h.optional rfl (mem_singleton_self _)
  obtain ⟨depth, s, c, ha⟩ := hfound rfl
  obtain ⟨f, raw, column, hf, hraw, hname, hcolumn, -, hvalue⟩ := hall depth s c ha
  rcases mem_cons.1 (mem_of_getElem? hf) with rfl | hf
  · cases hraw
  · obtain rfl := mem_singleton.1 hf
    obtain ⟨hb, hnullable⟩ := hlevel raw hraw column hcolumn
    refine ⟨_, depth, s, c, h, ha, by rw [hname, hb]; rfl, ?_⟩
    rw [hvalue, hnullable]
    rfl

end Interface.Visits

end SqlTyping
