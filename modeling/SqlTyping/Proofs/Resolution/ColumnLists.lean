import SqlTyping.Proofs.Resolution.Params
import SqlTyping.Proofs.Resolution.Stars

/-!
# Lists of column names

A source can be given names for its first columns, as in `FROM t AS n (a, b)` or
`WITH n (a, b) AS (...)`. The types of its columns are those that it has without the list. The names
are given before stars stand for columns, so they fit the columns of a query only as far as there is
no star. The columns of a table keep their names.
-/

namespace SqlTyping

open Extract List

variable {q : Interface} {views known : ViewColumns} {old : Option (List String)}

/-! ## Resolution -/

/-- A result column that does not stand for one column, or does not take a name. -/
def ResultColumn.IsStar (column : ResultColumn) : Prop :=
  column.name = "*" ∨ ∃ schema table span, column.type = .star schema table span

/-- Each name of a list belongs to one column, and the columns that are left have no other names
from a list. -/
def Source.Positional (columns : List Ident) : Source → Prop
  | .query _ q _ => ∀ column ∈ q.results.take columns.length, ¬column.IsStar
  | .values _ old types _ => old = none ∨ types.length ≤ columns.length
  | .table .. => True

/-- The first columns have the names of the list, and all have their types. -/
structure Relabels (names : List String) (positional : Prop) (old new : List (Field SqlType)) :
    Prop where
  types : new.map Field.value = old.map Field.value
  labels : positional → names.length ≤ old.length →
    new.map Field.name = names ++ (old.map Field.name).drop names.length

section Columns

variable {ctx : ResolveContext} {names : List String} {level : Level} {outer levels : List Level}

theorem Relabels.refl (positional : Prop) (columns : List (Field SqlType)) :
    Relabels [] positional columns columns := ⟨rfl, fun _ _ => rfl⟩

theorem ResolveContext.resultColumns_rename {column : ResultColumn} {old : List (Field SqlType)}
    (h : ctx.resultColumns level outer column = .ok old) (name : String) : ∃ new,
      ctx.resultColumns level outer (if column.name == "*" then column else { column with name }) =
        .ok new ∧ new.map Field.value = old.map Field.value ∧
      (¬column.IsStar → ∃ type, old = [⟨column.name, type⟩] ∧ new = [⟨name, type⟩]) := by
  obtain ⟨label, type, span⟩ := column
  by_cases hlabel : label = "*"
  · exact ⟨old, by simpa [hlabel] using h, rfl, fun hstar => absurd (.inl hlabel) hstar⟩
  rw [if_neg (by simpa using hlabel)]
  unfold resultColumns at h ⊢
  split at h
  · next heq =>
    cases heq
    exact ⟨old, h, rfl, fun hstar => absurd (.inr ⟨_, _, _, rfl⟩) hstar⟩
  · next hstar heq =>
    cases heq
    obtain ⟨t, ht, h⟩ := bind_eq_ok h
    cases h
    refine ⟨[⟨name, t⟩], ?_, rfl, fun _ => ⟨t, rfl, rfl⟩⟩
    split
    · next heq =>
      cases heq
      exact absurd rfl (hstar _ _ _)
    · next heq =>
      cases heq
      rw [ht]
      rfl

theorem ResolveContext.mapM_rename {old : List (List (Field SqlType))} (names : List String)
    (h : q.results.mapM (ctx.resultColumns level outer) = .ok old) :
    ∃ new, (q.renameResults names).results.mapM (ctx.resultColumns level outer) = .ok new ∧
      Relabels names (∀ column ∈ q.results.take names.length, ¬column.IsStar) old.flatten
        new.flatten := by
  rw [Interface.renameResults]
  generalize q.results = results at h ⊢
  induction results generalizing names old with
  | nil =>
    cases h
    refine ⟨[], by simp; rfl, rfl, fun _ hlength => ?_⟩
    rw [length_eq_zero_iff.1 (Nat.le_zero.1 hlength)]
    rfl
  | cons column rest ih =>
    cases names with
    | nil => exact ⟨old, by simpa using h, .refl _ _⟩
    | cons name names =>
      rw [mapM_cons] at h
      obtain ⟨first, hfirst, h⟩ := bind_eq_ok h
      obtain ⟨others, hothers, h⟩ := bind_eq_ok h
      cases h
      obtain ⟨new, hnew, htypes, hsingle⟩ := resultColumns_rename hfirst name
      obtain ⟨more, hmore, hrelabels⟩ := ih names hothers
      refine ⟨new :: more, ?_, ?_, fun hstar hlength => ?_⟩
      · rw [zip_cons_cons, map_cons, cons_append, mapM_cons, hnew]
        show (_ >>= _) = _
        rw [length_cons, drop_succ_cons, hmore]
        rfl
      · rw [flatten_cons, map_append, htypes, hrelabels.types, flatten_cons, map_append]
      · obtain ⟨hcolumn, hrest⟩ := forall_mem_cons.1 hstar
        obtain ⟨type, rfl, rfl⟩ := hsingle hcolumn
        simp only [flatten_cons, singleton_append, length_cons] at hlength
        simp [hrelabels.labels hrest (by omega)]

theorem Interface.resolveIn_renameResults {typed : TypedInterface}
    (h : (q.resolveIn ctx outer).run.run views = (.ok typed, known)) (names : List String) :
    ∃ typed', ((q.renameResults names).resolveIn ctx outer).run.run views = (.ok typed', known) ∧
      typed'.params = typed.params ∧
      Relabels names (∀ column ∈ q.results.take names.length, ¬column.IsStar) typed.results
        typed'.results := by
  obtain ⟨tables, between, level, nested, htables, hlist, hfinish⟩ := exists_of_resolveIn h
  rw [ResolveContext.finish] at hfinish
  obtain ⟨columns, hcolumns, hfinish⟩ := bind_eq_ok hfinish
  obtain ⟨own, hown, hfinish⟩ := bind_eq_ok hfinish
  cases hfinish
  obtain ⟨columns', hcolumns', hrelabels⟩ := ResolveContext.mapM_rename names hcolumns
  refine ⟨(own ++ nested).foldl TypedInterface.addParam ⟨[], columns'.flatten⟩, ?_, ?_, ?_⟩
  · rw [show q.renameResults names = ⟨q.sources, q.params, (q.renameResults names).results,
      q.nullableSources⟩ from rfl, Interface.resolveIn, Resolve.run_bind_of_ok _ htables,
      Resolve.run_bind_of_ok _ hlist]
    show (ctx.finish _ outer q.params (q.renameResults names).results nested, known) = _
    rw [ResolveContext.finish, hcolumns', hown]
    rfl
  · rw [ResolveContext.params_foldl_addParam, ResolveContext.params_foldl_addParam]
  · rwa [TypedInterface.results_foldl_addParam, TypedInterface.results_foldl_addParam]

/-- The name of a column of values. -/
def valueLabel (names : Option (List String)) (i : Nat) : String :=
  (names.bind (·[i]?)).getD ("column" ++ toString (i + 1))

theorem ResolveContext.valueColumns_rename {types : List TypeExpr} {i : Nat}
    {columns : List (Field SqlType)} (h : ctx.valueColumns levels old i types = .ok columns)
    (new : Option (List String)) :
    columns.map Field.name = (List.range' i types.length).map (valueLabel old) ∧
    ∃ columns', ctx.valueColumns levels new i types = .ok columns' ∧
      columns'.map Field.value = columns.map Field.value ∧
      columns'.map Field.name = (List.range' i types.length).map (valueLabel new) := by
  induction types generalizing i columns with
  | nil =>
    cases h
    exact ⟨rfl, [], rfl, rfl, rfl⟩
  | cons type rest ih =>
    rw [valueColumns] at h
    obtain ⟨t, ht, h⟩ := bind_eq_ok h
    obtain ⟨others, hothers, h⟩ := bind_eq_ok h
    cases h
    obtain ⟨hlabels, columns', hcolumns', htypes, hlabels'⟩ := ih hothers
    refine ⟨?_, ⟨valueLabel new i, t⟩ :: columns', ?_, ?_, ?_⟩
    · rw [map_cons, hlabels]
      rfl
    · rw [valueColumns, ht, hcolumns']
      rfl
    · rw [map_cons, map_cons, htypes]
    · rw [map_cons, hlabels']
      rfl

theorem map_valueLabel {n : Nat} (h : old = none ∨ n ≤ names.length) (hlength : names.length ≤ n) :
    (List.range' 0 n).map (valueLabel (some names)) =
      names ++ ((List.range' 0 n).map (valueLabel old)).drop names.length := by
  refine ext_getElem (by simp; omega) fun i hi _ => ?_
  by_cases hnamed : i < names.length
  · simp [valueLabel, getElem_append_left, hnamed]
  · have hnone : old = none := h.resolve_right fun hle => by simp at hi; omega
    have hi' : i < n := by simpa using hi
    simp [valueLabel, hnone, getElem_append_right, hnamed, Nat.le_of_not_lt hnamed]

theorem Source.withColumns_nil (source : Source) : source.withColumns [] = source := by
  cases source with
  | table => rfl
  | query name q isResult =>
    obtain ⟨_, _, _, _⟩ := q
    simp [withColumns, Extract.names, Interface.renameResults]
  | values => rfl

/-- A source that is no table is typed the same with names for its columns, apart from these. -/
theorem Source.resolve_withColumns {source : Source} {found : List TypedSource}
    {params : List (Param SqlType)}
    (h : (source.resolve ctx outer level).run.run views = (.ok (found, params), known))
    (columns : List Ident) : ∃ found',
      ((source.withColumns columns).resolve ctx outer level).run.run views =
        (.ok (found', params), known) ∧
      List.Forall₂ (fun s s' => s' = { s with columns := s'.columns } ∧
        Relabels (Extract.names columns) (source.Positional columns) s.columns s'.columns)
        found found' := by
  cases source with
  | table =>
    cases h
    exact ⟨[], rfl, .nil⟩
  | query name q isResult =>
    rw [resolve] at h
    obtain ⟨typed, _, htyped, h⟩ := Resolve.run_bind_ok h
    cases h
    obtain ⟨typed', htyped', hparams, hrelabels⟩ :=
      q.resolveIn_renameResults htyped (Extract.names columns)
    refine ⟨[⟨name, none, isResult, typed'.results⟩], ?_, .cons ⟨rfl, ?_⟩ .nil⟩
    · rw [withColumns, resolve, Resolve.run_bind_of_ok _ htyped', ← hparams]
      rfl
    · rwa [Extract.names, length_map] at hrelabels
  | values name old types isResult =>
    rw [resolve] at h
    obtain ⟨typed, _, htyped, h⟩ := Resolve.run_bind_ok h
    cases h
    obtain ⟨hvalues, rfl⟩ := Prod.mk.inj htyped
    cases columns with
    | nil =>
      rw [withColumns_nil, resolve]
      exact ⟨_, h, .cons ⟨rfl, .refl _ _⟩ .nil⟩
    | cons column rest =>
      obtain ⟨hlabels, typed', htyped', htypes, hlabels'⟩ :=
        ResolveContext.valueColumns_rename hvalues (some (Extract.names (column :: rest)))
      refine ⟨[⟨name, none, isResult, typed'⟩], ?_,
        .cons ⟨rfl, htypes, fun hpositional hle => ?_⟩ .nil⟩
      · rw [withColumns, resolve]
        show ((ofOutcome (ctx.valueColumns _ (some _) _ _) >>= _).run.run _) = _
        rw [htyped']
        rfl
      · rw [hlabels', hlabels]
        have hlength : typed.length = types.length := by simpa using congrArg List.length hlabels
        refine map_valueLabel ?_ (hlength ▸ hle)
        simpa [Positional, Extract.names] using hpositional

end Columns

/-! ## Where lists are written -/

/-- A place for a list of column names: how the source is added, what is extracted without the list
and what with it. -/
inductive ColumnList (columns : List Ident) :
    (add : Source → Extract Unit) → (plain listed : Extract Unit) → Prop where
  /-- Without `RECURSIVE`, or what is no set operation. -/
  | cte (isRecursive : Bool) (name : Ident) (body : CteBody) (span : Span) :
      (∀ query, body = .query query → (isRecursive && query.body matches .operation ..) = false) →
      ColumnList columns addNamed (extractCte isRecursive ⟨name, [], body, span⟩)
        (extractCte isRecursive ⟨name, columns, body, span⟩)
  /-- A set operation, which itself refers to its columns by the names of the list. -/
  | recursive {op : SetOperator} {all : Bool} {left right : SetExpr} {opSpan : Span}
      (name : Ident) (query : Query) (span : Span) :
      query.body = .operation op all left right opSpan → ColumnList columns addNamed (do
          let q ← recursiveQuery name.value columns (extractFirst query) (extractQuery query)
          addNamed (.query name.value q true))
        (extractCte true ⟨name, columns, .query query, span⟩)
  | derived (lateral : Bool) (subquery : Query) (name : Ident) (span : Span) (isResult : Bool) :
      ColumnList columns addSource
        (extractRelation (.derived lateral subquery (some ⟨name, []⟩) span) isResult)
        (extractRelation (.derived lateral subquery (some ⟨name, columns⟩) span) isResult)
  /-- A table of the catalog, or a query of a `WITH` clause. -/
  | table (table : ObjectName) (name : Ident) (span : Span) (isResult : Bool) :
      ColumnList columns addSource (extractRelation (.table table (some ⟨name, []⟩) span) isResult)
        (extractRelation (.table table (some ⟨name, columns⟩) span) isResult)

theorem Source.withResult_withColumns (source : Source) (columns : List Ident) (isResult : Bool) :
    (source.withColumns columns).withResult isResult =
      (source.withResult isResult).withColumns columns := by
  cases source <;> rfl

/-- What is extracted with a list of column names adds a source, with the list for its columns. -/
def Lists (add : Source → Extract Unit) (listed : List Ident → Extract Unit) : Prop :=
  ∃ base : Extract Source, ∀ columns,
    listed columns = base >>= fun source => add (source.withColumns columns)

theorem lists_extractCte {isRecursive : Bool} {body : CteBody}
    (hplain : ∀ query, body = .query query →
      (isRecursive && query.body matches .operation ..) = false) (name : Ident) (span : Span) :
    Lists addNamed fun columns => extractCte isRecursive ⟨name, columns, body, span⟩ := by
  have hquery (inner : Extract Unit) : Lists addNamed fun columns => (do
      addNamed (.query name.value ((← nested [] inner).renameResults (names columns)) true)) :=
    ⟨do return .query name.value (← nested [] inner) true, fun _ => rfl⟩
  simp only [extractCte]
  cases body with
  | values values =>
    exact ⟨do return .values name.value none (← inferValues values) true, fun _ => rfl⟩
  | query query =>
    refine (hquery (extractQuery query)).imp fun _ h columns => Eq.trans ?_ (h columns)
    beta_reduce
    rw [extractCteBody]
    exact if_neg (Bool.eq_false_iff.mp (hplain query rfl))
  | insert | update | delete => exact hquery _

theorem lists_table (table : ObjectName) (name : Ident) (span : Span) (isResult : Bool) :
    Lists addSource fun columns =>
      extractRelation (.table table (some ⟨name, columns⟩) span) isResult := by
  simp only [extractRelation, addTable]
  split
  · refine ⟨do
      return (← useNamed table.name.value).elim
        (.table (table.schema.map Ident.value) table.name.value name.value isResult span)
        fun source => (source.renamed name.value).withResult isResult,
      fun columns => ?_⟩
    rw [bind_assoc]
    refine bind_congr fun found => ?_
    cases found with
    | none => rfl
    | some source =>
      rw [pure_bind, Option.elim_some, ← Source.withResult_withColumns]
      rfl
  · exact ⟨pure (.table (table.schema.map Ident.value) table.name.value name.value isResult span),
      fun _ => rfl⟩

/-- With the list, the source that is added has names for its columns. -/
theorem ColumnList.exists_source {columns : List Ident} {add : Source → Extract Unit}
    {plain listed : Extract Unit} (h : ColumnList columns add plain listed) :
    ∃ base : Extract Source, plain = base >>= add ∧
      listed = base >>= fun source => add (source.withColumns columns) := by
  -- Without the list, the source has names for none of its columns.
  have hplace {listed : List Ident → Extract Unit} (h : Lists add listed) :
      ∃ base : Extract Source, listed [] = base >>= add ∧
        listed columns = base >>= fun source => add (source.withColumns columns) :=
    h.imp fun _ h => ⟨by simp only [h, Source.withColumns_nil], h columns⟩
  cases h with
  | cte isRecursive name body span hplain => exact hplace (lists_extractCte hplain name span)
  | recursive name query span hbody =>
    refine ⟨do
      let q ← recursiveQuery name.value columns (extractFirst query) (extractQuery query)
      return .query name.value q true, rfl, ?_⟩
    rw [extractCte, extractCteBody, hbody]
    rfl
  | derived lateral subquery name span isResult =>
    have hderived : Lists addSource fun columns =>
        extractRelation (.derived lateral subquery (some ⟨name, columns⟩) span) isResult :=
      ⟨do return .query name.value (← nested [] (extractQuery subquery)) isResult,
        fun columns => by beta_reduce; rw [extractRelation]; rfl⟩
    exact hplace hderived
  | table table name span isResult => exact hplace (lists_table table name span isResult)

/-- A list of column names changes nothing but the source it is written for. That has the columns
it has without the list: with the same types, and if no star is in the way also with the names of
the list and then its own. The columns of a table are the same. -/
theorem ColumnList.relabelled {columns : List Ident} {add : Source → Extract Unit}
    {plain listed : Extract Unit} (h : ColumnList columns add plain listed) :
    ∃ base : Extract Source, plain = base >>= add ∧
      listed = (base >>= fun source => add (source.withColumns columns)) ∧
      ∀ (s : Scope) (ctx : ResolveContext) (outer : List Level) (level : Level),
        let source := (base.run s).1
        ctx.table (source.withColumns columns) = ctx.table source ∧
        ∀ views found params known,
          (source.resolve ctx outer level).run.run views = (.ok (found, params), known) →
          ∃ found', ((source.withColumns columns).resolve ctx outer level).run.run views =
              (.ok (found', params), known) ∧
            List.Forall₂ (fun s s' => s' = { s with columns := s'.columns } ∧
              Relabels (names columns) (source.Positional columns) s.columns s'.columns)
              found found' := by
  obtain ⟨base, hplain, hlisted⟩ := h.exists_source
  refine ⟨base, hplain, hlisted, fun s ctx outer level => ⟨?_, ?_⟩⟩
  · cases (base.run s).1 <;> rfl
  · exact fun _ _ _ _ hr => Source.resolve_withColumns hr columns

/-- The query of `FROM (SELECT label, bid FROM b) AS t (x)`. -/
def labelsFirst : Query where
  withClause := none
  body := .select
    { distinct := .absent
      items := [.expr (.column none none ⟨"label", false, ⟨13, 18⟩⟩ ⟨13, 18⟩) none ⟨13, 18⟩,
        .expr (.column none none ⟨"bid", false, ⟨20, 23⟩⟩ ⟨20, 23⟩) none ⟨20, 23⟩]
      relations := [.table ⟨none, ⟨"b", false, ⟨29, 30⟩⟩, ⟨29, 30⟩⟩ none ⟨29, 30⟩]
      selection := none, groupBy := [], having := none, windows := [], span := ⟨6, 30⟩ }
  orderBy := []
  limit := none
  offset := none
  locking := []
  span := ⟨6, 30⟩

theorem ColumnList.relabelled_first :
    let columns : List Ident := [⟨"x", false, ⟨38, 39⟩⟩]
    ∃ base : Extract Source,
      extractRelation (.derived false labelsFirst (some ⟨⟨"t", false, ⟨35, 36⟩⟩, columns⟩) ⟨5, 40⟩)
        true = (base >>= fun source => addSource (source.withColumns columns)) ∧
      ∃ s known, (((base.run (.fresh [] [])).1.withColumns columns).resolve
          (.ofStore Interface.Visits.labels .strict) [] []).run.run [] = (.ok ([s], []), known) ∧
        s.columns.map Field.name = ["x", "bid"] := by
  intro columns
  obtain ⟨base, hplain, hlisted, hall⟩ := relabelled (.derived false labelsFirst
    ⟨"t", false, ⟨35, 36⟩⟩ ⟨5, 40⟩ true : ColumnList columns _ _ _)
  have hsource : (base.run (.fresh [] [])).1 = .query "t"
      ⟨[.table none "b" none true ⟨29, 30⟩], [],
        [⟨"label", .column none none "label" ⟨13, 18⟩, ⟨13, 18⟩⟩,
          ⟨"bid", .column none none "bid" ⟨20, 23⟩, ⟨20, 23⟩⟩], []⟩ true := by
    have hrun := congrArg (fun act : Extract Unit => (act.run (.fresh [] [])).2.interface.sources)
      hplain
    exact (singleton_inj.1 (append_inj' (hrun : [] ++ [_] = _ ++ [_]) rfl).2).symm
  obtain ⟨-, hall⟩ := hall (.fresh [] []) (.ofStore Interface.Visits.labels .strict) [] []
  rw [hsource] at hall
  obtain ⟨_, hfound, hrelabels⟩ := hall [] _ _ _ rfl
  cases hrelabels with
  | cons hfirst hrest =>
    cases hrest
    refine ⟨base, hlisted, _, _, hsource ▸ hfound, hfirst.2.labels (fun column hcolumn => ?_) ?_⟩
    · obtain rfl := mem_singleton.1 hcolumn
      simp [ResultColumn.IsStar]
    · exact Nat.le_add_left 1 1

end SqlTyping
