import SqlTyping.Proofs.Extraction.Traversal
import SqlTyping.Proofs.Json.Encoding
import SqlTyping.Proofs.Resolution.Lookups

/-!
# What a star stands for

The sources of a query that are results are given by the items of its `FROM` list, in their order
(`Block.forall₂_shown`). When they are resolved, the tables come before all others, and this is the
order of the columns that a star without qualifier stands for (`Block.columns_of_star`). It is that
of the `FROM` list if no table stands after a query or function (`Source.tablesFirst_eq_self`).

Stars are whole result columns: no type that is resolved has one in it (`Statement.whole_stars`).
-/

namespace SqlTyping

open List

variable {sources : List Source} {ctx : ResolveContext}

/-! ## Items and sources -/

/-- A part of a text that has result columns of its own. -/
inductive Block where
  /-- A statement, or a query or change inside of one. -/
  | statement (statement : Statement)
  /-- A branch of a set operation. -/
  | branch (body : SetExpr)
  /-- The first branch of a recursive query, which says what columns it has. -/
  | first (query : Query)

namespace Block

def extract : Block → Extract Unit
  | .statement st => extractStatement st
  | .branch body => extractSetExpr body
  | .first q => extractFirst q

/-- The items that a star stands for, in the order of the text, and whether a join makes them
optional. -/
def items : Block → List Relation.Item
  | .statement st => st.items
  | .branch body => body.items
  | .first q => q.items

/-- The items alone. -/
def shown (b : Block) : List Relation := b.items.map Prod.fst

def interface (b : Block) (outer : List Source) (expected : List TypeExpr) : Interface :=
  (b.extract.run (.fresh outer expected)).2.finish

end Block

theorem Source.within_tables : (source : Source) → source.Within (.tables fun _ => True)
  | .table .. => .table trivial
  | .query _ ⟨sources, _, _, _⟩ _ =>
    have hsources : ∀ source ∈ sources, source.Within (.tables fun _ => True) := fun source h =>
      have := List.sizeOf_lt_of_mem h
      source.within_tables
    Interface.Within.source ⟨hsources, fun _ _ => trivial, fun _ _ => .inl trivial⟩
  | .values .. => .values fun _ _ => trivial

/-- The sources that the items stand for, and which of them are nullable. -/
theorem Block.exists_pairs (b : Block) (outer : List Source) (expected : List TypeExpr) :
    ∃ pairs : Pairs, pairs.map Prod.fst = b.items ∧
      pairs.map Prod.snd = (b.interface outer expected).shown ∧ (∀ p ∈ pairs, p.1.1.Gives p.2) ∧
      Marks [] pairs.optional (b.interface outer expected).nullableSources := by
  have hallowed (mentions : List TableMention) (calls : List ObjectName) :
      Allowed (.tables fun _ => True) mentions calls :=
    ⟨fun _ _ _ => trivial, fun _ _ _ => trivial⟩
  have hadds : Adds (.tables fun _ => True) [] b.items b.extract fun _ => True := by
    cases b with
    | statement st => exact adds_extractStatement st (hallowed _ _)
    | branch body => exact adds_extractSetExpr body (List.Subset.refl []) (hallowed _ _)
    | first q => exact adds_extractFirst q (hallowed (Fold.tables.query (fun _ => []) [] q) _)
  obtain ⟨hstep, -⟩ := hadds (.fresh outer expected)
    (Scope.within_fresh (fun source _ => source.within_tables) fun _ _ => trivial) nofun
  obtain ⟨pairs, hitems, hgains⟩ := hstep.shows
  obtain ⟨sources, hsources, hresult⟩ := hgains.sources
  obtain ⟨-, hshown, hnullable⟩ := hstep.within.finish
  rw [Block.interface, hshown, hnullable, Interface.shown, hsources]
  exact ⟨pairs, hitems, hresult.symm, hgains.gives, hgains.nullable⟩

theorem Block.forall₂_shown (b : Block) (outer : List Source) (expected : List TypeExpr) :
    List.Forall₂ Relation.Gives b.shown (b.interface outer expected).shown := by
  obtain ⟨pairs, hitems, hshown, hgives, -⟩ := b.exists_pairs outer expected
  rw [Block.shown, ← hitems, ← hshown, map_map, forall₂_map_left_iff,
    forall₂_map_right_iff, forall₂_same]
  exact hgives

/-! ## The order of resolution -/

namespace Source

/-- Sources in the order in which they are resolved. -/
def tablesFirst (sources : List Source) : List Source :=
  sources.filter (!·.isNamedQuery) ++ sources.filter (·.isNamedQuery)

theorem mem_tablesFirst {source : Source} : source ∈ tablesFirst sources ↔ source ∈ sources := by
  cases h : source.isNamedQuery <;> simp [tablesFirst, h]

theorem tablesFirst_eq_self : tablesFirst sources = sources ↔
    sources.Pairwise fun a b => a.isNamedQuery = true → b.isNamedQuery = true := by
  constructor
  · intro h
    rw [← h, tablesFirst, pairwise_append]
    have hnot {a : Source} (ha : a ∈ sources.filter (!·.isNamedQuery)) : ¬a.isNamedQuery = true := by
      simpa using (mem_filter.1 ha).2
    exact ⟨pairwise_of_forall_mem_list fun a ha _ _ h => absurd h (hnot ha),
      pairwise_of_forall_mem_list fun _ _ b hb _ => (mem_filter.1 hb).2,
      fun a ha _ _ h => absurd h (hnot ha)⟩
  · intro h
    induction h with
    | nil => rfl
    | @cons source rest hfirst _ ih =>
      cases hnamed : source.isNamedQuery with
      | false =>
        rw [tablesFirst, filter_cons_of_pos (by simp [hnamed]),
          filter_cons_of_neg (by simp [hnamed]), cons_append]
        exact congrArg (source :: ·) ih
      | true =>
        have hall : ∀ other ∈ rest, other.isNamedQuery = true := fun b hb => hfirst b hb hnamed
        rw [tablesFirst, filter_eq_nil_iff.2 (by simpa [hnamed] using hall), nil_append,
          filter_eq_self.2 (forall_mem_cons.2 ⟨hnamed, hall⟩)]

end Source

/-- The typed source as the query itself sees it. -/
def Interface.Shows (ctx : ResolveContext) (outer : List Level) (q : Interface) (s : TypedSource)
    (source : Source) : Prop :=
  ∃ raw : TypedSource, raw.From ctx outer source ∧
    s = if q.isNullable raw.name then raw.setNullable else raw

theorem Interface.forall₂_setNullable {outer : List Level} {level : Level} (q : Interface)
    (h : List.Forall₂ (TypedSource.From ctx outer) level sources) :
    List.Forall₂ (q.Shows ctx outer) ((level.setNullable q.nullableSources).filter (·.isResult))
      (sources.filter Source.isResult) := by
  induction h with
  | nil => exact .nil
  | @cons raw source level sources hraw _ ih =>
    let s : TypedSource := if q.isNullable raw.name then raw.setNullable else raw
    have hresult : s.isResult = source.isResult := by
      rw [← hraw.fits.2]
      dsimp only [s]
      split <;> rfl
    have hcons : Level.setNullable (raw :: level) q.nullableSources =
        s :: Level.setNullable level q.nullableSources := rfl
    rw [hcons, filter_cons, filter_cons, hresult]
    split
    · exact .cons ⟨raw, hraw, rfl⟩ ih
    · exact ih

theorem TypedInterface.results_foldl_addParam (typed : TypedInterface)
    (params : List (Param SqlType)) :
    (params.foldl TypedInterface.addParam typed).results = typed.results := by
  induction params generalizing typed with
  | nil => rfl
  | cons p rest ih => exact ih _

/-- The columns that each result column stands for. A star without qualifier stands for those of the
result sources, in the order in which these are resolved. In lenient mode the tables that the store
does not have are left out, in strict mode there are none. -/
theorem Interface.columns_run {q : Interface} {levels : List Level} {views known : ViewColumns}
    {typed : TypedInterface} (h : (q.resolveIn ctx levels).run.run views = (.ok typed, known)) :
    ∃ (level : Level) (columns : List (List (Field SqlType))),
      (ctx.mode = .strict → ∀ source ∈ q.shown, ctx.store.hasSource source) ∧
      List.Forall₂ (q.Shows ctx levels) level
        ((Source.tablesFirst q.shown).filter ctx.store.hasSource) ∧
      typed.results = columns.flatten ∧
      List.Forall₂ (fun column own => ∀ schema span, column.type = .star schema none span →
        own = level.flatMap (·.columns)) q.results columns := by
  obtain ⟨tables, between, level, nested, htables, hlist, hfinish⟩ := exists_of_resolveIn h
  obtain ⟨hkept, hall⟩ := ResolveContext.tables_run htables levels
  obtain ⟨found, rfl, hfound⟩ := Source.resolveList_run hlist
  obtain ⟨columns, own, hcolumns, -, rfl⟩ := ResolveContext.exists_of_finish_eq_ok hfinish
  have hfilter (p : Source → Bool) : (q.sources.filter p).filter Source.isResult =
      q.shown.filter p := filter_comm ..
  have hqueries : (q.shown.filter (·.isNamedQuery)).filter ctx.store.hasSource =
      q.shown.filter (·.isNamedQuery) :=
    filter_eq_self.2 fun source hsource => Store.hasSource_of_isNamedQuery (mem_filter.1 hsource).2
  have hshows := q.forall₂_setNullable (rel_append hkept hfound)
  rw [filter_append, filter_comm Source.isResult, hfilter, hfilter, ← hqueries, ← filter_append]
    at hshows
  refine ⟨_, columns, fun hmode source hsource => hall hmode source (mem_of_mem_filter hsource),
    hshows, TypedInterface.results_foldl_addParam _ _,
    hcolumns.imp fun column own hcolumn schema span hstar => ?_⟩
  obtain ⟨name, type, _⟩ := column
  cases hstar
  exact (Except.ok.inj hcolumn).symm

/-- The result sources of a query are given by the items of its `FROM` list, in order. A star
without qualifier stands for their columns with the tables moved to the front, which changes nothing
just where no table stands after a query or function. Left out are just the tables that the store
does not have, of which there are none in strict mode. -/
theorem Block.columns_of_star (b : Block) (outer : List Source) (expected : List TypeExpr)
    {ctx : ResolveContext} {levels : List Level} {views known : ViewColumns}
    {typed : TypedInterface}
    (h : ((b.interface outer expected).resolveIn ctx levels).run.run views = (.ok typed, known)) :
    ∃ (sources given : List Source) (level : Level) (columns : List (List (Field SqlType))),
      List.Forall₂ Relation.Gives b.shown sources ∧
      given = (Source.tablesFirst sources).filter ctx.store.hasSource ∧
      (ctx.mode = .strict → given = Source.tablesFirst sources) ∧
      (Source.tablesFirst sources = sources ↔
        sources.Pairwise fun a c => a.isNamedQuery = true → c.isNamedQuery = true) ∧
      List.Forall₂ ((b.interface outer expected).Shows ctx levels) level given ∧
      typed.results = columns.flatten ∧
      List.Forall₂ (fun column own => ∀ schema span, column.type = .star schema none span →
        own = level.flatMap (·.columns)) (b.interface outer expected).results columns := by
  obtain ⟨level, columns, hall, hshows, hresults, hcolumns⟩ := Interface.columns_run h
  refine ⟨_, _, level, columns, b.forall₂_shown outer expected, rfl,
    fun hmode => filter_eq_self.2 fun source hsource => hall hmode source ?_,
    Source.tablesFirst_eq_self, hshows, hresults, hcolumns⟩
  exact Source.mem_tablesFirst.1 hsource

/-- A star over a query and a table that stands after it. -/
def queryThenTable : String := "SELECT * FROM (SELECT 'x' AS s) d, a"

theorem Block.columns_of_star_queryThenTable : ∃ st typed sources level columns,
    parse queryThenTable = .ok st ∧
      (st.interface []).resolve Interface.Visits.labels .strict = .ok typed ∧
      typed.results.map Field.name = ["id", "s"] ∧ typed.results = List.flatten columns ∧
      List.Forall₂ Relation.Gives (Block.statement st).shown sources ∧
      List.Forall₂ ((st.interface []).Shows (.ofStore Interface.Visits.labels .strict) []) level
        (Source.tablesFirst sources) := by
  have hread : (parse queryThenTable).toOption.any fun st =>
      ((st.interface []).resolve Interface.Visits.labels .strict).toOption.any fun typed =>
        typed.results.map Field.name == ["id", "s"] := by
    decide +kernel
  obtain ⟨st, hp, hread⟩ := exists_of_toOption_any hread
  obtain ⟨typed, hr, hread⟩ := exists_of_toOption_any hread
  have hrun : (((Block.statement st).interface [] []).resolveIn
      (.ofStore Interface.Visits.labels .strict) []).run.run [] = (.ok typed, _) :=
    Prod.ext hr rfl
  obtain ⟨sources, _, level, columns, hgives, -, hall, -, hshows, hresults, -⟩ :=
    columns_of_star (.statement st) [] [] hrun
  cases hall rfl
  exact ⟨st, typed, sources, level, columns, hp, hr, eq_of_beq hread, hresults, hgives, hshows⟩

/-! ## Where stars stand -/

namespace TypeExpr

def isStar (t : TypeExpr) : Bool := t matches .star ..

/-- Neither the type nor a type in it is a star. -/
inductive StarFree : TypeExpr → Prop where
  | intro {t : TypeExpr} : t.isStar = false → (∀ u ∈ t.parts, u.StarFree) → t.StarFree

/-- The type is no star, and all types in it are among those given. -/
def MadeOf (ts : List TypeExpr) (t : TypeExpr) : Prop := t.isStar = false ∧ ∀ u ∈ t.parts, u ∈ ts

variable {t : TypeExpr} {ts : List TypeExpr}

theorem MadeOf.starFree (h : t.MadeOf ts) (hts : ∀ u ∈ ts, u.StarFree) : t.StarFree :=
  ⟨h.1, fun u hu => hts u (h.2 u hu)⟩

theorem StarFree.known {t : SqlType} : (known t).StarFree := ⟨rfl, nofun⟩

theorem madeOf_itemOf (t : TypeExpr) : t.itemOf.MadeOf [t] := by
  unfold itemOf
  split <;> simp [MadeOf, isStar, parts, unknown]

theorem madeOf_arrayOf (t : TypeExpr) (nullable : Bool) : (t.arrayOf nullable).MadeOf [t] := by
  unfold arrayOf
  split <;> simp [MadeOf, isStar, parts]

theorem madeOf_fieldOf (t : TypeExpr) (name : String) (span : Span) :
    (t.fieldOf name span).MadeOf [t] := by
  unfold fieldOf
  repeat' split
  all_goals simp [MadeOf, isStar, parts]

theorem madeOf_castTo (t u : TypeExpr) : (t.castTo u).MadeOf [t, u] := by
  unfold castTo
  split <;> simp [MadeOf, isStar, parts]

theorem madeOf_ofOperator (symbol : String) (available : List Overload) (t u : TypeExpr)
    (part : OperatorPart) (span : Span) :
    (ofOperator symbol available t u part span).MadeOf [t, u] := by
  unfold ofOperator
  split <;> simp [MadeOf, isStar, parts]

theorem madeOf_coalesceOf (ts : List TypeExpr) : (coalesceOf ts).MadeOf ts := by
  unfold coalesceOf
  split <;> simp [MadeOf, isStar, parts]

theorem madeOf_objectOf (fields : List (Field TypeExpr)) :
    (objectOf fields).MadeOf (fields.map Field.value) := by
  unfold objectOf
  split
  · exact ⟨rfl, nofun⟩
  · exact ⟨rfl, fun _ => id⟩

theorem starFree_ofDataType (target : DataType) (span : Span) :
    (ofDataType target span).StarFree := by
  unfold ofDataType
  split
  · exact .known
  · generalize target.dimensions = n
    induction n with
    | zero => exact ⟨rfl, forall_mem_nil _⟩
    | succ n ih => exact ⟨rfl, forall_mem_singleton.2 ih⟩

end TypeExpr

open TypeExpr

/-- Any tables, and types without stars. -/
def Limits.starFree : Limits where
  table _ := True
  type := StarFree
  common := True
  basic _ := .known
  column _ _ _ _ := ⟨rfl, nofun⟩
  record _ _ _ := ⟨rfl, nofun⟩
  function _ _ _ h := ⟨rfl, h⟩
  argument _ _ _ _ h := ⟨rfl, h⟩
  operator symbol part span hleft hright :=
    (madeOf_ofOperator symbol _ _ _ part span).starFree (by simp [hleft, hright])
  dataType := starFree_ofDataType
  cast target span h := (madeOf_castTo _ _).starFree (by simp [h, starFree_ofDataType])
  union h := unionOf_induction h (fun ⟨_, hparts⟩ => hparts) (fun _ _ => .known) (⟨rfl, ·⟩)
  array h := (madeOf_arrayOf _ _).starFree (forall_mem_singleton.2 h)
  asArray h := ⟨rfl, forall_mem_singleton.2 h⟩
  item h := (madeOf_itemOf _).starFree (forall_mem_singleton.2 h)
  field name span h := (madeOf_fieldOf _ name span).starFree (forall_mem_singleton.2 h)
  object h := ⟨rfl, forall_mem_map.2 h⟩
  builtin h hargs _ := BuiltinCall.type?_induction h (fun _ => .known)
    (fun item hitem => (madeOf_arrayOf item true).starFree (forall_mem_singleton.2 (hargs _ hitem)))
    (fun hfields => (madeOf_objectOf _).starFree
      (forall_mem_map.2 fun f hf => hargs _ (hfields f hf)))
    fun _ => (madeOf_coalesceOf _).starFree hargs

/-- Types that are resolved in an interface are within its limits, or are whole result columns. -/
theorem Visits.within {L : Limits} {q : Interface} {rest : List Source} {outer frames : List Frame}
    {level : Level} {views : ViewColumns} {position : ColumnPosition} {t : TypeExpr}
    (h : Visits ctx q rest outer level views frames position t) (hq : q.Within L)
    (hrest : ∀ source ∈ rest, source.Within L) :
    L.type t ∨ position = .result ∧ ∃ schema table span, t = .star schema table span := by
  induction h with
  | result hcolumn => exact (hq.results _ hcolumn).imp_right fun h => ⟨rfl, h⟩
  | param hp => exact .inl (hq.params _ hp)
  | values ht =>
    cases hrest _ mem_cons_self with
    | values htypes => exact .inl (htypes _ ht)
  | query _ _ ih =>
    cases hrest _ mem_cons_self with
    | query hsources hparams hresults => exact ih ⟨hsources, hparams, hresults⟩ hsources
  | next _ _ ih => exact ih hq fun source hs => hrest source (mem_cons_of_mem _ hs)

/-- A star is the whole type of a result column wherever one stands in the interface of a statement,
nested queries included, if this is so for the named queries around it. Whatever type is resolved
in it, with any catalog and any views, for the statement itself or where it is the text of a view,
has no star in it unless it is such a result column. -/
theorem Statement.whole_stars (st : Statement) {outer : List Source}
    (houter : ∀ source ∈ outer, source.Within .starFree) :
    (st.interface outer).Within .starFree ∧
    ∀ ctx level views frames position t,
      Visits ctx (st.interface outer) (st.interface outer).sources [] level views frames position
        t →
      t.StarFree ∨ position = .result ∧ ∃ schema table span, t = .star schema table span := by
  have hwithin : (st.interface outer).Within .starFree :=
    st.within_interface ⟨fun _ _ _ => trivial, fun _ _ _ => trivial⟩ houter
  exact ⟨hwithin, fun _ _ _ _ _ _ h => h.within hwithin hwithin.sources⟩

/-- A named query whose columns are those of a star. -/
def starred : Source := .query "c" ⟨[], [], [⟨"*", .star none none ⟨0, 1⟩, ⟨0, 1⟩⟩], []⟩ false

theorem Statement.whole_stars_starred : ∃ st, parse "SELECT c.*, $p FROM c" = .ok st ∧
    (st.interface [starred]).results.map (·.type.isStar) = [true, false] ∧
    (st.interface [starred]).Within .starFree := by
  have hread : (parse "SELECT c.*, $p FROM c").toOption.any fun st =>
      (st.interface [starred]).results.map (·.type.isStar) == [true, false] := by
    decide +kernel
  obtain ⟨st, hp, hread⟩ := exists_of_toOption_any hread
  have hstarred : starred.Within .starFree :=
    .query nofun nofun (forall_mem_singleton.2 (.inr ⟨_, _, _, rfl⟩))
  exact ⟨st, hp, eq_of_beq hread, (st.whole_stars (forall_mem_singleton.2 hstarred)).1⟩

end SqlTyping
