import SqlTyping.Proofs.Resolution.Agreement
import Mathlib.Logic.Relation

/-!
# Views that are known

The columns of a view are kept once they are typed. `Settles` says what they are, without reference
to what is known or open: the view's query has them, given what the views it reads settle on. A view
that settles does not read itself, not even by way of other views.

So what is known never shows. If all known columns are those that their views settle on, reading a
view gives the same columns or the same error as if nothing were known, and what it keeps is what
the view settles on (`readView_independent`).
-/

open Relation (TransGen transGen_swap)

namespace SqlTyping

open List

variable {statement : Statement} {C : Comparison} {reader views' : ViewReader}
  {I J : ViewColumns → Prop} {asName schema : Option String} {isResult : Bool}
  {typed : TypedInterface} {name : QualifiedName} {text : String} {columns : List Column}
  {opened : List QualifiedName} {views : ViewColumns} {c : List (Field SqlType)}
  {ctx : ResolveContext} {inner n : QualifiedName} {store s : Store} {depth : Nat} {L : Prop}
  {α : Type} {a : α}

/-! ## Views by name -/

/-- Some name is looked up to the view. -/
def Store.IsView (s : Store) (name : QualifiedName) (text : String) (columns : List Column) : Prop :=
  ∃ n, s.table? n = some (.view name text columns)

/-- Search goes by kind and name, so of records that share both, only the first is found first. -/
theorem searchRecords_eq_filter (path : List String) (records : List CatalogRecord)
    (key : RecordKey) :
    ∃ p : RecordKind → QualifiedName → Bool,
      searchRecords path records key = records.filter fun r => p r.kind r.name := by
  obtain ⟨kind, schema | schema, name⟩ := key
  · rw [searchRecords_bare]
    rcases firstHome_eq records kind name path with h | ⟨schema, -, h⟩
    · exact ⟨fun _ _ => false, by rw [h]; simp⟩
    · exact ⟨fun k n => k == kind && Text.eqFold name n.name && n.isIn schema, h⟩
  · exact ⟨fun k n => k == kind && QualifiedName.admits ⟨some schema, name⟩ n, by
      simp [searchRecords]⟩

theorem Store.find?_of_table? {r : CatalogRecord} (h : s.table? n = some r) :
    s.records.find? (·.key == r.key) = some r := by
  obtain ⟨p, hp⟩ := searchRecords_eq_filter s.searchPath s.records ⟨.table, n⟩
  rw [Store.table?, Store.search, hp, head?_filter] at h
  obtain ⟨hr, before, after, hrecords, hbefore⟩ := find?_eq_some_iff_append.1 h
  refine find?_eq_some_iff_append.2 ⟨by simp, before, after, hrecords, fun x hx => ?_⟩
  by_contra hkey
  have hsame : x.key = r.key := by simpa using hkey
  rw [CatalogRecord.key, CatalogRecord.key, RecordKey.mk.injEq] at hsame
  have hnot := hbefore x hx
  rw [hsame.1, hsame.2, hr] at hnot
  cases hnot

/-- A view is known by its name. -/
theorem Store.IsView.unique {text' : String} {columns' : List Column}
    (h : s.IsView name text columns) (h' : s.IsView name text' columns') :
    text = text' ∧ columns = columns' := by
  obtain ⟨n, hn⟩ := h
  obtain ⟨n', hn'⟩ := h'
  have hfind := find?_of_table? hn
  have hkey : (CatalogRecord.view name text columns).key =
      (CatalogRecord.view name text' columns').key := rfl
  rw [hkey, find?_of_table? hn', Option.some.injEq, CatalogRecord.view.injEq] at hfind
  exact ⟨hfind.2.1.symm, hfind.2.2.symm⟩

/-- The view is what a source of the interface, or of a query nested in it, is looked up to. -/
def Interface.Reads (store : Store) (q : Interface) (name : QualifiedName) : Prop :=
  ∃ n ∈ q.tableRefs, ∃ text columns, store.table? n = some (.view name text columns)

/-- The query of the first view reads the second. -/
def Opens (store : Store) (name inner : QualifiedName) : Prop :=
  ∃ text columns statement, store.IsView name text columns ∧ parse text = .ok statement ∧
    (statement.interface []).Reads store inner

theorem Opens.reads (h : Opens store name inner)
    (hview : store.IsView name text columns) (hparse : parse text = .ok statement) :
    (statement.interface []).Reads store inner := by
  obtain ⟨text', columns', statement', hview', hparse', hreads⟩ := h
  obtain ⟨rfl, rfl⟩ := hview.unique hview'
  rw [hparse, Except.ok.injEq] at hparse'
  exact hparse' ▸ hreads

/-- What leads to a view leads to the views that it reads, and so does the view itself. -/
theorem Opens.transGen (h : Opens store name inner)
    (ho : ∀ n ∈ opened, TransGen (Opens store) n name) :
    ∀ n ∈ opened ++ [name], TransGen (Opens store) n inner := by
  intro n hm
  rcases mem_append.1 hm with hm | hm
  · exact (ho n hm).tail h
  · rw [mem_singleton.1 hm]; exact .single h

/-! ## What views settle on -/

/-- Views are read off a table. -/
def readFrom (f : QualifiedName → List (Field SqlType)) : ViewReader :=
  fun name _ _ => pure (f name)

/-- The columns of a view are those of its query, where the views that it reads have the columns
they settle on, or those of the catalog if lenient typing has to make do with them. -/
inductive Settles (store : Store) (mode : ResolveMode) : QualifiedName → List (Field SqlType) → Prop
  | query {name : QualifiedName} {text : String} {columns : List Column} {statement : Statement}
      {f : QualifiedName → List (Field SqlType)} {typed : TypedInterface} :
      store.IsView name text columns → parse text = .ok statement →
      (∀ inner, Opens store name inner → Settles store mode inner (f inner)) →
      (((statement.interface []).resolveIn ⟨store, mode, readFrom f⟩ []).run.run []).1 = .ok typed →
      Settles store mode name typed.results
  | catalog {name : QualifiedName} {text : String} {columns : List Column} {e : SyntaxError}
      {typed : List (Field SqlType)} :
      store.IsView name text columns → parse text = .error e → mode = .lenient →
      store.typeColumns columns = .ok typed → Settles store mode name typed

section

variable {store : Store} {mode : ResolveMode}

/-- Interfaces are related if the views they read are. -/
theorem Interface.resolveIn_reading (hC : C.Reflexive) (mode : ResolveMode)
    (q : Interface) {views : ViewReader}
    (h : ∀ name, q.Reads store name → ∀ text columns, store.IsView name text columns →
      C.act (views name text columns) (views' name text columns)) :
    C.act (q.resolveIn ⟨store, mode, views⟩ []) (q.resolveIn ⟨store, mode, views'⟩ []) := by
  refine Interface.resolveIn_related (P := (· ∈ q.needs.keys))
    (hC.contexts_of_views fun n hn name text columns hf => ?_) q [] (r := {}) fun _ hk => hk
  exact h name ⟨n, Interface.table_mem_needs.1 hn, text, columns, hf⟩ text columns ⟨n, hf⟩

/-- Queries of views are related if the views they read are. -/
theorem resolveIn_readers (hC : C.Reflexive) (mode : ResolveMode)
    (hview : store.IsView name text columns) (hparse : parse text = .ok statement)
    {views : ViewReader}
    (h : ∀ inner, Opens store name inner → ∀ text columns, store.IsView inner text columns →
      C.act (views inner text columns) (views' inner text columns)) :
    C.act ((statement.interface []).resolveIn ⟨store, mode, views⟩ [])
      ((statement.interface []).resolveIn ⟨store, mode, views'⟩ []) :=
  (statement.interface []).resolveIn_reading hC mode fun inner hreads =>
    h inner ⟨text, columns, statement, hview, hparse, hreads⟩

theorem Settles.unique {c' : List (Field SqlType)} (h : Settles store mode name c)
    (h' : Settles store mode name c') : c = c' := by
  induction h generalizing c' with
  | query hview hparse _ htyped ih =>
    cases h' with
    | query hview' hparse' hinner' htyped' =>
      obtain ⟨rfl, rfl⟩ := hview.unique hview'
      rw [hparse, Except.ok.injEq] at hparse'
      subst hparse'
      have hsame := resolveIn_readers Comparison.reflexive_equal mode hview hparse
        fun inner hopens text columns _ =>
        congrArg (fun c => (pure c : Resolve _)) (ih inner hopens (hinner' inner hopens))
      unfold readFrom at htyped htyped'
      rw [hsame, htyped', Except.ok.injEq] at htyped
      rw [htyped]
    | catalog hview' hparse' =>
      obtain ⟨rfl, rfl⟩ := hview.unique hview'
      rw [hparse] at hparse'; cases hparse'
  | catalog hview hparse _ htyped =>
    cases h' with
    | query hview' hparse' =>
      obtain ⟨rfl, rfl⟩ := hview.unique hview'
      rw [hparse] at hparse'; cases hparse'
    | catalog hview' _ _ htyped' =>
      obtain ⟨rfl, rfl⟩ := hview.unique hview'
      rw [htyped, Except.ok.injEq] at htyped'
      exact htyped'

/-- A view that settles reads only views that settle. -/
theorem Settles.acc (h : Settles store mode name c) : Acc (Function.swap (Opens store)) name := by
  induction h with
  | query _ _ _ _ ih => exact ⟨_, fun inner hopens => ih inner hopens⟩
  | catalog hview hparse =>
    refine ⟨_, fun inner hopens => ?_⟩
    obtain ⟨text, columns, statement, hview', hparse', -⟩ := hopens
    obtain ⟨rfl, rfl⟩ := hview.unique hview'
    rw [hparse] at hparse'; cases hparse'

/-- Nothing on a cycle is accessible. -/
theorem not_transGen_of_acc (h : Acc (Function.swap (Opens store)) name) :
    ¬TransGen (Opens store) name name := by
  intro hcycle
  have hself : TransGen (Function.swap (Opens store)) name name := transGen_swap.2 hcycle
  have hacc := h.transGen
  clear hcycle h
  induction hacc with
  | intro n _ ih => exact ih n hself hself

/-- A view that settles does not read itself. -/
theorem Settles.not_transGen (h : Settles store mode name c) : ¬TransGen (Opens store) name name :=
  not_transGen_of_acc h.acc

end

/-! ## Comparison by what is known -/

/-- Outcomes are the same, or failures of the first are left aside if `L`. What is known satisfies
`I` before and after the first, and `J` before and after the second. -/
def Comparison.known (L : Prop) (I J : ViewColumns → Prop) : Comparison where
  start := I
  outcome o o' := o = o' ∨ L ∧ ∃ e, o = .error e
  act x y := ∀ views known, I views → J known → I (x.run.run views).2 ∧
    ((x.run.run views).1 = (y.run.run known).1 ∧ J (y.run.run known).2 ∨
      L ∧ ∃ e, (x.run.run views).1 = .error e)
  ok _ := .inl rfl
  bind := by
    rintro α β o o' f f' (rfl | ⟨hL, e, rfl⟩) hf
    · cases o with
      | error e => exact .inl rfl
      | ok a => exact hf a
    · exact .inr ⟨hL, e, rfl⟩
  lift h _ _ hI hJ := ⟨hI, h.imp_left fun h => ⟨h, hJ⟩⟩
  bindAct := by
    intro α β x x' f f' hx hf views known hI hJ
    obtain ⟨hI', ho⟩ := hx views known hI hJ
    rw [Resolve.run_bind, Resolve.run_bind]
    cases hx : x.run.run views with
    | mk o views' =>
      rw [hx] at hI' ho
      cases o with
      | error e =>
        refine ⟨hI', ho.imp (fun h => ?_) fun h => ⟨h.1, e, rfl⟩⟩
        obtain ⟨ho, hJ'⟩ := h
        generalize x'.run.run known = out at ho hJ' ⊢
        obtain ⟨o', known'⟩ := out
        cases ho
        exact ⟨rfl, hJ'⟩
      | ok a =>
        rcases ho with ⟨ho, hJ'⟩ | ⟨-, e, ho⟩
        · generalize x'.run.run known = out at ho hJ' ⊢
          obtain ⟨o', known'⟩ := out
          cases ho
          exact hf a ⟨views, views', hI, hx⟩ views' known' hI' hJ'
        · cases ho
  atSpan := by
    intro α x x' span hx views known hI hJ
    obtain ⟨hI', ho⟩ := hx views known hI hJ
    rw [Resolve.run_atSpan, Resolve.run_atSpan]
    refine ⟨hI', ?_⟩
    rcases ho with ⟨ho, hJ'⟩ | ⟨hL, e, ho⟩
    · exact .inl ⟨by rw [ho], hJ'⟩
    · exact .inr ⟨hL, e.withSpan span, by rw [ho]; rfl⟩

theorem Comparison.reflexive_known : (Comparison.known L I J).Reflexive := fun _ _ _ => .inl rfl

/-- What the first succeeds in, the second succeeds in. -/
theorem Comparison.known_run {x y : Resolve α}
    (h : (Comparison.known L I J).act x y) {views' known : ViewColumns} (hI : I views)
    (hJ : J known) (hx : x.run.run views = (.ok a, views')) :
    I views' ∧ ∃ known', y.run.run known = (.ok a, known') ∧ J known' := by
  obtain ⟨hI', ho⟩ := h views known hI hJ
  rw [hx] at hI' ho
  rcases ho with ⟨ho, hJ'⟩ | ⟨-, e, he⟩
  · exact ⟨hI', (y.run.run known).2, Prod.ext ho.symm rfl, hJ'⟩
  · cases he

theorem Comparison.known_run_ok {x y : Resolve α}
    (h : (Comparison.known L I J).act x y) {known : ViewColumns} (hI : I views) (hJ : J known)
    (hx : (x.run.run views).1 = .ok a) : (y.run.run known).1 = .ok a := by
  obtain ⟨-, known', hy, -⟩ := known_run h hI hJ (Prod.ext hx rfl)
  rw [hy]

/-! ## Reading a view that settles -/

/-- What is known of views is what they settle on. -/
def SettledViews (store : Store) (mode : ResolveMode) (views : ViewColumns) : Prop :=
  ∀ name c, views.lookup name = some c → Settles store mode name c

section

variable {store : Store} {mode : ResolveMode}

theorem settledViews_nil : SettledViews store mode [] := fun _ _ h => by cases h

theorem SettledViews.cons (h : SettledViews store mode views) (hc : Settles store mode name c) :
    SettledViews store mode ((name, c) :: views) := by
  intro n c' hn
  rw [lookup_cons] at hn
  split at hn
  · next heq =>
    rw [eq_of_beq heq]
    cases hn
    exact hc
  · exact h n c' hn

theorem Store.IsView.mem_records (h : store.IsView name text columns) :
    .view name text columns ∈ store.records := by
  obtain ⟨n, hn⟩ := h
  exact mem_records_of_mem_searchRecords (mem_of_head? hn)

/-- A view that settles is read as it settles, wherever it is read without closing a cycle and
whatever is known. -/
theorem Settles.readView_eq (h : Settles store mode name c) (ha : Ample store depth opened)
    (ho : ∀ n ∈ opened, n ≠ name ∧ ¬TransGen (Opens store) name n)
    (hview : store.IsView name text columns) (hv : SettledViews store mode views) :
    ((readView store mode depth opened name text columns).run.run views).1 = .ok c ∧
      SettledViews store mode
        ((readView store mode depth opened name text columns).run.run views).2 := by
  induction h generalizing depth opened text columns views with
  | @query name text₀ columns₀ statement f typed hview₀ hparse hinner htyped ih =>
    obtain ⟨rfl, rfl⟩ := hview₀.unique hview
    have hsettles : Settles store mode name typed.results := .query hview hparse hinner htyped
    obtain ⟨depth, rfl⟩ : ∃ d, depth = d + 1 := ⟨depth - 1, by have := ha.pos; omega⟩
    have hnew : name ∉ opened := fun hm => (ho name hm).1 rfl
    rw [readView, viewColumns_run]
    cases hl : views.lookup name with
    | some known => exact ⟨by rw [(hv name known hl).unique hsettles], hv⟩
    | none =>
      -- The query reads views that settle, none of which leads back to an open view.
      have hquery : (Comparison.known True (· = []) (SettledViews store mode)).act
          ((statement.interface []).resolveIn ⟨store, mode, readFrom f⟩ [])
          ((statement.interface []).resolveIn
            ⟨store, mode, readView store mode depth (opened ++ [name])⟩ []) := by
        refine resolveIn_readers Comparison.reflexive_known mode hview hparse
          fun inner hopens text' columns' hview' => ?_
        intro _ known hnil hknown
        have hread := ih inner hopens (ha.opening hview.mem_records hnew) ?_ hview' hknown
        · exact ⟨hnil, .inl ⟨hread.1.symm, hread.2⟩⟩
        · intro n hm
          have hback : n = inner ∨ TransGen (Opens store) inner n →
              TransGen (Opens store) name n := by
            rintro (rfl | h)
            · exact .single hopens
            · exact .head hopens h
          rcases mem_append.1 hm with hm | hm
          · exact ⟨fun h => (ho n hm).2 (hback (.inl h)), fun h => (ho n hm).2 (hback (.inr h))⟩
          · rw [mem_singleton.1 hm] at hback ⊢
            exact ⟨fun h => hsettles.not_transGen (hback (.inl h)),
              fun h => hsettles.not_transGen (hback (.inr h))⟩
      obtain ⟨-, known, hrun, hafter⟩ := Comparison.known_run hquery rfl hv (Prod.ext htyped rfl)
      have hcontains : opened.contains name = false := by simpa using hnew
      simp only [hcontains, hparse, hrun, Bool.false_eq_true, if_false, true_and]
      exact hafter.cons hsettles
  | @catalog name text₀ columns₀ e typed hview₀ hparse hmode htyped =>
    obtain ⟨rfl, rfl⟩ := hview₀.unique hview
    have hsettles := Settles.catalog hview hparse hmode htyped
    obtain ⟨depth, rfl⟩ : ∃ d, depth = d + 1 := ⟨depth - 1, by have := ha.pos; omega⟩
    have hnew : opened.contains name = false := by simpa using fun hm => (ho name hm).1 rfl
    rw [readView, viewColumns_run]
    cases hl : views.lookup name with
    | some known => exact ⟨by rw [(hv name known hl).unique hsettles], hv⟩
    | none =>
      subst hmode
      simp only [hnew, hparse, htyped]
      exact ⟨rfl, hv.cons hsettles⟩

end

/-! ## What a query has read -/

/-- The table or view has been looked up with success. -/
def ResolveContext.Read (ctx : ResolveContext) (n : QualifiedName) : Prop :=
  ∃ asName isResult span views found known,
    (ctx.table (.table n.schema n.name asName isResult span)).run.run views = (.ok found, known)

theorem ResolveContext.read_of_tables {sources : List Source} {known : ViewColumns} {level : Level}
    (h : (ctx.tables sources).run.run views = (.ok level, known)) :
    ∀ source ∈ sources, source.isNamedQuery = false →
      ∀ use ∈ source.tables, ctx.Read use.qualified := by
  induction sources generalizing views known level with
  | nil => exact nofun
  | cons source sources ih =>
    obtain ⟨found, between, hsource, hrest⟩ := Resolve.run_bind_ok h
    obtain ⟨rest, between', hrest, -⟩ := Resolve.run_bind_ok hrest
    refine forall_mem_cons.2 ⟨fun hs => ?_, ih hrest⟩
    cases source with
    | table schema name asName isResult span =>
      rw [Source.tables, forall_mem_singleton]
      exact ⟨asName, isResult, span, views, found, between, hsource⟩
    | query | values => cases hs

mutual

/-- A query that is resolved has read all tables and views that it refers to. -/
theorem Interface.read_of_resolveIn (q : Interface) {views : ViewColumns} {typed : TypedInterface}
    (h : (q.resolveIn ctx outer).run.run views = (.ok typed, known)) :
    ∀ use ∈ q.tables, ctx.Read use.qualified := by
  obtain ⟨tables, _, _, _, htables, hsources, -⟩ := Interface.exists_of_resolveIn h
  obtain ⟨sources, params, results, nullable⟩ := q
  exact Source.read_of_resolveList sources hsources (ResolveContext.read_of_tables htables)

theorem Source.read_of_resolve (source : Source) {views : ViewColumns}
    (h : (Source.resolve ctx source outer level).run.run views = (.ok found, known))
    (ht : source.isNamedQuery = false → ∀ use ∈ source.tables, ctx.Read use.qualified) :
    ∀ use ∈ source.tables, ctx.Read use.qualified := by
  cases source with
  | table => exact ht rfl
  | query name q isResult =>
    obtain ⟨typed, between, hq, -⟩ := Resolve.run_bind_ok h
    exact Interface.read_of_resolveIn q hq
  | values => exact nofun

theorem Source.read_of_resolveList (sources : List Source) {views : ViewColumns}
    (h : (Source.resolveList ctx sources outer level).run.run views = (.ok found, known))
    (ht : ∀ source ∈ sources, source.isNamedQuery = false →
      ∀ use ∈ source.tables, ctx.Read use.qualified) :
    ∀ use ∈ Source.listTables sources, ctx.Read use.qualified := by
  cases sources with
  | nil => exact nofun
  | cons source sources =>
    obtain ⟨ht, hrests⟩ := forall_mem_cons.1 ht
    rw [Source.listTables, forall_mem_append]
    obtain ⟨first, between, hsource, hrest⟩ := Resolve.run_bind_ok h
    obtain ⟨rest, between', hrest, -⟩ := Resolve.run_bind_ok hrest
    exact ⟨Source.read_of_resolve source hsource ht,
      Source.read_of_resolveList sources hrest hrests⟩

end

/-- A source that is looked up to a view has the columns that are read of the view. -/
theorem ResolveContext.run_table_view {table : String} {span : Span}
    (hn : ctx.store.table? ⟨schema, table⟩ = some (.view name text columns))
    {known : ViewColumns} {found : Option TypedSource}
    (h : (ctx.table (.table schema table asName isResult span)).run.run views =
      (.ok found, known)) :
    ∃ c, found = some ⟨asName.getD table, some name, isResult, c⟩ ∧
      (ctx.views name text columns).run.run views = (.ok c, known) := by
  unfold ResolveContext.table at h
  dsimp only at h
  rw [hn] at h
  obtain ⟨c, between, hread, hfound⟩ := Resolve.run_bind_ok h
  cases hfound
  refine ⟨c, rfl, ?_⟩
  rw [Resolve.run_atSpan] at hread
  cases hv : (ctx.views name text columns).run.run views with
  | mk o after =>
    rw [hv] at hread
    cases o <;> cases hread
    rfl

/-- A view that has been looked up with success has been read with success. -/
theorem ResolveContext.Read.view (h : ctx.Read n)
    (hn : ctx.store.table? n = some (.view name text columns)) :
    ∃ views c known, (ctx.views name text columns).run.run views = (.ok c, known) := by
  obtain ⟨asName, isResult, span, views, found, known, h⟩ := h
  obtain ⟨c, -, hread⟩ := run_table_view hn h
  exact ⟨views, c, known, hread⟩

/-! ## Reading any view -/

section

variable {store : Store} {mode : ResolveMode}

open Classical in
/-- Reads views that settle. -/
noncomputable def settledReader (store : Store) (mode : ResolveMode) : ViewReader := fun name _ _ =>
  if h : ∃ c, Settles store mode name c then pure h.choose else throw default

theorem Settles.settledReader_eq (h : Settles store mode name c) (text : String)
    (columns : List Column) : settledReader store mode name text columns = pure c := by
  have hex : ∃ c, Settles store mode name c := ⟨c, h⟩
  rw [settledReader, dif_pos hex, hex.choose_spec.unique h]

theorem exists_settles_of_settledReader (text : String) (columns : List Column)
    {known : ViewColumns}
    (h : (settledReader store mode name text columns).run.run views = (.ok c, known)) :
    ∃ c, Settles store mode name c := by
  by_contra hex
  rw [settledReader, dif_neg hex] at h
  cases h

/-- Reading keeps to what views settle on, in what it gives and in what is known afterwards. -/
def ReadsSettled (store : Store) (mode : ResolveMode) (name : QualifiedName)
    (x : Resolve (List (Field SqlType))) : Prop :=
  ∀ views, SettledViews store mode views → SettledViews store mode (x.run.run views).2 ∧
    ∀ c, (x.run.run views).1 = .ok c → Settles store mode name c

/-- What a query results in is also its result where only views that settle can be read. So the
views that it reads settle. -/
theorem Interface.settled_of_resolveIn (q : Interface)
    (hreader : ∀ name, q.Reads store name → ∀ text columns, store.IsView name text columns →
      ReadsSettled store mode name (reader name text columns))
     (hv : SettledViews store mode views)
    (h : ((q.resolveIn ⟨store, mode, reader⟩ []).run.run views).1 = .ok typed) :
    ((q.resolveIn ⟨store, mode, settledReader store mode⟩ []).run.run []).1 = .ok typed ∧
      ∀ name, q.Reads store name → ∃ c, Settles store mode name c := by
  have hrelated : (Comparison.known True (SettledViews store mode) (· = [])).act
      (q.resolveIn ⟨store, mode, reader⟩ [])
      (q.resolveIn ⟨store, mode, settledReader store mode⟩ []) := by
    refine q.resolveIn_reading Comparison.reflexive_known mode
      fun name hreads text columns hview => ?_
    intro known none hknown hnone
    obtain ⟨hafter, hsettles⟩ := hreader name hreads text columns hview known hknown
    cases ho : ((reader name text columns).run.run known).1 with
    | ok c =>
      rw [(hsettles c ho).settledReader_eq]
      exact ⟨hafter, .inl ⟨rfl, hnone⟩⟩
    | error e => exact ⟨hafter, .inr ⟨trivial, e, rfl⟩⟩
  have hsettled := Comparison.known_run_ok hrelated hv rfl h
  refine ⟨hsettled, ?_⟩
  rintro name ⟨n, hn, text, columns, hf⟩
  have hnames := forall_mem_map.2 (q.read_of_resolveIn (Prod.ext hsettled rfl))
  obtain ⟨views, c, known, hread⟩ := (hnames n hn).view hf
  exact exists_settles_of_settledReader text columns hread

/-- A view settles if its query has a result, where every view that is read with success settles on
what is read. -/
theorem settles_of_query (hview : store.IsView name text columns)
    (hparse : parse text = .ok statement)
    (hreader : ∀ inner, Opens store name inner → ∀ text columns, store.IsView inner text columns →
      ReadsSettled store mode inner (reader inner text columns))
     (hv : SettledViews store mode views)
    (h : (((statement.interface []).resolveIn ⟨store, mode, reader⟩ []).run.run views).1 =
      .ok typed) :
    Settles store mode name typed.results := by
  obtain ⟨hsettled, hread⟩ := (statement.interface []).settled_of_resolveIn (fun inner hreads =>
    hreader inner ⟨text, columns, statement, hview, hparse, hreads⟩) hv h
  have hinner : ∀ inner, Opens store name inner → ∃ c, Settles store mode inner c :=
    fun inner hopens => hread inner (hopens.reads hview hparse)
  classical
  refine .query (f := fun inner => if h : ∃ c, Settles store mode inner c then h.choose else [])
    hview hparse (fun inner hopens => ?_) ?_
  · have hex := hinner inner hopens
    rw [dif_pos hex]
    exact hex.choose_spec
  · rw [← hsettled]
    refine congrArg (fun x => (x.run.run []).1)
      (resolveIn_readers Comparison.reflexive_equal mode hview hparse ?_)
    intro inner hopens text' columns' _
    have hex := hinner inner hopens
    rw [hex.choose_spec.settledReader_eq, readFrom, dif_pos hex]
    rfl

/-- Reading has one outcome, whatever is known, and a success is what the view settles on. -/
def Independent (store : Store) (mode : ResolveMode) (name : QualifiedName)
    (x : Resolve (List (Field SqlType))) : Prop :=
  (Comparison.known False (SettledViews store mode) (SettledViews store mode)).act x x ∧
    ∀ views, SettledViews store mode views → ∀ c, (x.run.run views).1 = .ok c →
      Settles store mode name c

theorem Independent.readsSettled {x : Resolve (List (Field SqlType))}
    (h : Independent store mode name x) : ReadsSettled store mode name x :=
  fun views hv => ⟨(h.1 views views hv hv).1, h.2 views hv⟩

/-- A view that settles on nothing is not known, and reading it fails in one way. -/
theorem viewColumns_fails
    (hview : store.IsView name text columns) (hex : ¬∃ c, Settles store mode name c)
     (reader : ViewReader)
    (hreader : name ∉ opened → ∀ inner, Opens store name inner → ∀ text columns,
      store.IsView inner text columns → Independent store mode inner (reader inner text columns)) :
    ∃ e, ∀ views, SettledViews store mode views →
      ((viewColumns store mode opened (fun q => q.resolveIn ⟨store, mode, reader⟩ []) name text
        columns).run.run views).1 = .error e ∧
      SettledViews store mode ((viewColumns store mode opened
        (fun q => q.resolveIn ⟨store, mode, reader⟩ []) name text columns).run.run views).2 := by
  have hunknown : ∀ views, SettledViews store mode views → views.lookup name = none := by
    intro views hv
    cases hl : views.lookup name with
    | none => rfl
    | some c => exact absurd ⟨c, hv name c hl⟩ hex
  simp only [viewColumns_run]
  cases hcontains : opened.contains name with
  | true => exact ⟨_, fun views hv => by simp only [hunknown views hv]; exact ⟨rfl, hv⟩⟩
  | false =>
    cases hparse : parse text with
    | ok statement =>
      have hreader := hreader (by simpa using hcontains)
      have hself := resolveIn_readers Comparison.reflexive_known mode hview hparse
        fun inner hopens text' columns' hview' => (hreader inner hopens text' columns' hview').1
      have herror : ∀ views, SettledViews store mode views →
          ∃ e, (((statement.interface []).resolveIn ⟨store, mode, reader⟩ []).run.run views).1 =
            .error e := by
        intro views hv
        cases ho : (((statement.interface []).resolveIn
            ⟨store, mode, reader⟩ []).run.run views).1 with
        | error e => exact ⟨e, rfl⟩
        | ok typed =>
          exact absurd ⟨_, settles_of_query hview hparse (fun inner hopens text' columns' hview' =>
            (hreader inner hopens text' columns' hview').readsSettled) hv ho⟩ hex
      obtain ⟨e, he⟩ := herror [] settledViews_nil
      refine ⟨e, fun views hv => ?_⟩
      obtain ⟨hafter, ho⟩ := hself views [] hv settledViews_nil
      rw [he] at ho
      simp only [hunknown views hv, Bool.false_eq_true, if_false]
      generalize (((statement.interface []).resolveIn ⟨store, mode, reader⟩ []).run.run views) = out
        at ho hafter ⊢
      obtain ⟨o, known⟩ := out
      rcases ho with ⟨h, -⟩ | ⟨h, -⟩
      · dsimp only at h
        subst h
        exact ⟨rfl, hafter⟩
      · exact h.elim
    | error e =>
      cases mode with
      | strict => exact ⟨_, fun views hv => by simp only [hunknown views hv]; exact ⟨rfl, hv⟩⟩
      | lenient =>
        cases htyped : store.typeColumns columns with
        | ok c => exact absurd ⟨c, .catalog hview hparse rfl htyped⟩ hex
        | error e => exact ⟨e, fun views hv => by simp only [hunknown views hv]; exact ⟨rfl, hv⟩⟩

/-- What is read of a view does not depend on what is known, and it is what the view settles on. -/
theorem readView_independent (ha : Ample store depth opened)
    (hview : store.IsView name text columns) (ho : ∀ n ∈ opened, TransGen (Opens store) n name) :
    Independent store mode name (readView store mode depth opened name text columns) := by
  induction depth generalizing opened name text columns with
  | zero => exact absurd ha.pos (by omega)
  | succ depth ih =>
    by_cases hex : ∃ c, Settles store mode name c
    · obtain ⟨c, hc⟩ := hex
      -- An open view that this one leads to would be on a cycle with it.
      have havoid : ∀ n ∈ opened, n ≠ name ∧ ¬TransGen (Opens store) name n := fun n hm =>
        ⟨fun h => hc.not_transGen (h ▸ ho n hm), fun h => hc.not_transGen (h.trans (ho n hm))⟩
      refine ⟨fun views known hv hk => ?_, fun views hv c' h => ?_⟩
      · obtain ⟨h1, h2⟩ := hc.readView_eq ha havoid hview hv
        obtain ⟨h3, h4⟩ := hc.readView_eq ha havoid hview hk
        exact ⟨h2, .inl ⟨h1.trans h3.symm, h4⟩⟩
      · rw [(hc.readView_eq ha havoid hview hv).1, Except.ok.injEq] at h
        exact h ▸ hc
    · obtain ⟨e, hfails⟩ := viewColumns_fails hview hex
        (readView store mode depth (opened ++ [name]))
        fun hnew inner hopens text' columns' hview' =>
          ih (ha.opening hview.mem_records hnew) hview' (hopens.transGen ho)
      rw [readView]
      refine ⟨fun views known hv hk => ?_, fun views hv c h => ?_⟩
      · obtain ⟨h1, h2⟩ := hfails views hv
        obtain ⟨h3, h4⟩ := hfails known hk
        exact ⟨h2, .inl ⟨h1.trans h3.symm, h4⟩⟩
      · rw [(hfails views hv).1] at h; cases h

theorem Store.IsView.independent (h : store.IsView name text columns) : Independent store mode name
      (readView store mode (store.records.length + 1) [] name text columns) :=
  readView_independent (ample_nil store) h fun n hm => by cases hm

/-- An interface is typed alike whatever is known, and what is known afterwards is what views settle
on. -/
theorem Interface.resolveWith_independent (q : Interface) (hv : SettledViews store mode views) :
    (q.resolveWith store mode views).1 = q.resolve store mode ∧
      SettledViews store mode (q.resolveWith store mode views).2 := by
  have hself : (Comparison.known False (SettledViews store mode) (SettledViews store mode)).act
      (q.resolveIn (.ofStore store mode) []) (q.resolveIn (.ofStore store mode) []) :=
    q.resolveIn_reading Comparison.reflexive_known mode fun name _ text columns hview =>
      hview.independent.1
  obtain ⟨hafter, ho⟩ := hself views [] hv settledViews_nil
  exact ⟨(ho.resolve_right fun h => h.1).1, hafter⟩

end

end SqlTyping
