import SqlTyping.Proofs.Resolution.Failures
import SqlTyping.Proofs.Resolution.References

/-!
# Related resolutions

Two resolutions of one interface can be compared once and for all: a `Comparison` is a relation on
outcomes and on resolutions that sequencing keeps, and `Interface.resolveIn_scoped` lifts it from
the leaves to interfaces. The leaves are what asks the catalog, looks up a column or depends on the
mode. They need to be related only for names that the interface refers to, which is how the walk
that collects these names meets the walk that looks them up, and for columns in the scopes where
they are looked up. The sources in scope may differ too, as long as nesting keeps them related.
-/

namespace SqlTyping

open List

variable {α : Type} {ctx ctx' : ResolveContext} {P : RecordKey → Prop} {r : Requests}

/-- A way to compare outcomes, and resolutions, that sequencing keeps. The first resolution starts
where what is known of views has the property `start`. -/
structure Comparison where
  start : ViewColumns → Prop
  outcome : {α : Type} → Except LoadError α → Except LoadError α → Prop
  act : {α : Type} → Resolve α → Resolve α → Prop
  ok : ∀ {α : Type} (a : α), outcome (.ok a) (.ok a)
  bind : ∀ {α β : Type} {o o' : Except LoadError α} {f f' : α → Except LoadError β},
    outcome o o' → (∀ a, outcome (f a) (f' a)) → outcome (o >>= f) (o' >>= f')
  lift : ∀ {α : Type} {o o' : Except LoadError α}, outcome o o' → act (ofOutcome o) (ofOutcome o')
  bindAct : ∀ {α β : Type} {x x' : Resolve α} {f f' : α → Resolve β},
    act x x' → (∀ a, x.Yields start a → act (f a) (f' a)) → act (x >>= f) (x' >>= f')
  atSpan : ∀ {α : Type} {x x' : Resolve α} (span : Span), act x x' →
    act (atSpan span x) (atSpan span x')

/-- What becomes of a table that is not found. -/
def ResolveContext.missing (ctx : ResolveContext) (n : QualifiedName) (span : Span) :
    Resolve (Option TypedSource) :=
  match ctx.mode with
  | .lenient => return none
  | .strict => throw ⟨.tableNotFound n, some span⟩

namespace Comparison

variable (C : Comparison)

/-- Every outcome is related to itself, also a failure. Nothing is asked of the failure of a view
that reads itself, which no leaf has. -/
def Reflexive : Prop := ∀ (α : Type) (o : Except LoadError α), NoViewCycle o → C.outcome o o

theorem pure_act (a : α) : C.act (pure a : Resolve α) (pure a) := C.lift (C.ok a)

theorem mapM {β : Type} {f f' : α → Except LoadError β} {l : List α}
    (h : ∀ a ∈ l, C.outcome (f a) (f' a)) : C.outcome (l.mapM f) (l.mapM f') := by
  induction l with
  | nil => exact C.ok []
  | cons a l ih =>
    rw [mapM_cons, mapM_cons]
    refine C.bind (h a mem_cons_self) fun b => C.bind (ih fun a ha => ?_) fun bs => C.ok _
    exact h a (mem_cons_of_mem _ ha)

/-- Comparison for equality. -/
def equal : Comparison where
  start _ := True
  outcome := Eq
  act := Eq
  ok _ := rfl
  bind h hf := by rw [h, funext hf]
  lift h := by rw [h]
  bindAct h hf := by rw [← h, Resolve.bind_congr hf]
  atSpan _ h := by rw [h]

theorem reflexive_equal : equal.Reflexive := fun _ _ _ => rfl

/-- The first fails only with errors that have the property `X`. The second does not count. -/
def failing (X : LoadError → Prop) (hspan : ∀ e span, X e → X (e.withSpan span)) : Comparison where
  start _ := True
  outcome o _ := ∀ e, o = .error e → X e
  act x _ := ∀ views e, (x.run.run views).1 = .error e → X e
  ok _ _ h := by cases h
  bind {_ _ o _ f _} h hf := by
    cases o with
    | ok a => exact hf a
    | error e =>
      intro e' he
      cases he
      exact h e rfl
  lift h _ := h
  bindAct {_ _ x _ f _} h hf := by
    intro views e
    rw [Resolve.run_bind]
    cases hx : x.run.run views with
    | mk o between =>
      cases o with
      | ok a => exact hf a ⟨views, between, trivial, hx⟩ between e
      | error e' =>
        intro he
        cases he
        exact h views e (by rw [hx])
  atSpan {_ x _} span h := by
    intro views e
    rw [Resolve.run_atSpan]
    cases hx : (x.run.run views).1 with
    | ok a => intro he; cases he
    | error e' =>
      intro he
      cases he
      exact hspan e' span (h views e' hx)

/-- The leaves of types are related, where names have the property `P` and columns the property `Q`.
-/
structure Types (C : Comparison) (P : RecordKey → Prop) (Q : ColumnRef → Prop)
    (ctx ctx' : TypeContext) : Prop where
  column : ∀ schema table name span, Q ⟨schema, table, name⟩ →
    C.outcome (recover ctx.mode (Level.lookup ctx.levels schema table name span ctx.position))
      (recover ctx'.mode (Level.lookup ctx'.levels schema table name span ctx'.position))
  named : ∀ n : QualifiedName, P ⟨.enum, n⟩ → P ⟨.composite, n⟩ →
    C.outcome (ctx.store.namedType n) (ctx'.store.namedType n)
  unknown : ∀ (n : QualifiedName) (span : Span),
    C.outcome (recover ctx.mode (.error ⟨.unknownType n, some span⟩))
      (recover ctx'.mode (.error ⟨.unknownType n, some span⟩))
  function : ∀ n : QualifiedName, P ⟨.function, n⟩ → ∀ args index span,
    C.outcome (recover ctx.mode (ctx.store.functionType n args index span))
      (recover ctx'.mode (ctx'.store.functionType n args index span))
  field : ∀ (t : SqlType) name span,
    C.outcome (t.field ctx.mode name span) (t.field ctx'.mode name span)

/-- The leaves of interfaces are related, where names have the property `P` and columns the property
`Q` in their scope, and where the sources in scope are related by `S`. -/
structure Scoped (C : Comparison) (P : RecordKey → Prop) (Q : List Level → ColumnRef → Prop)
    (S : List Level → List Level → Prop) (ctx ctx' : ResolveContext) : Prop where
  push : ∀ {outer outer'} (level : Level), S outer outer' → S (level :: outer) (level :: outer')
  types : ∀ {levels levels'} position, S levels levels' →
    C.Types P (Q levels) (ctx.typeContext levels position) (ctx'.typeContext levels' position)
  star : ∀ (level : Level) schema table span,
    C.outcome (level.star ctx.mode schema table span) (level.star ctx'.mode schema table span)
  table : ∀ schema name asName isResult span, P ⟨.table, ⟨schema, name⟩⟩ →
    C.act (ctx.table (.table schema name asName isResult span))
      (ctx'.table (.table schema name asName isResult span))

/-- The leaves of interfaces are related where the enclosing sources are the same, whatever columns
are looked up. -/
abbrev Contexts (C : Comparison) (P : RecordKey → Prop) (ctx ctx' : ResolveContext) : Prop :=
  C.Scoped P (fun _ _ => True) Eq ctx ctx'

variable {C}

/-- Tables are related if the same is found, and it is related. -/
theorem table_related {schema : Option String} {name : String}
    (asName : Option String) (isResult : Bool) (span : Span)
    (hfound : ctx.store.table? ⟨schema, name⟩ = ctx'.store.table? ⟨schema, name⟩)
    (htable : ∀ found columns, ctx.store.table? ⟨schema, name⟩ = some (.table found columns) →
      C.outcome (ctx.store.typeColumns columns) (ctx'.store.typeColumns columns))
    (hview : ∀ found text columns,
      ctx.store.table? ⟨schema, name⟩ = some (.view found text columns) →
      C.act (ctx.views found text columns) (ctx'.views found text columns))
    (hmissing : C.act (ctx.missing ⟨schema, name⟩ span) (ctx'.missing ⟨schema, name⟩ span)) :
    C.act (ctx.table (.table schema name asName isResult span))
      (ctx'.table (.table schema name asName isResult span)) := by
  unfold ResolveContext.table
  dsimp only
  rw [← hfound]
  cases hf : ctx.store.table? ⟨schema, name⟩ with
  | none => exact hmissing
  | some record =>
    cases record with
    | table found columns =>
      exact C.bindAct (C.lift (htable found columns hf)) fun _ _ => C.pure_act _
    | view found text columns =>
      exact C.bindAct (C.atSpan span (hview found text columns hf)) fun _ _ => C.pure_act _
    | enum | composite | function => exact hmissing

section

variable (hrefl : C.Reflexive)
include hrefl

theorem Reflexive.types (P : RecordKey → Prop) (Q : ColumnRef → Prop) (ctx : TypeContext) :
    C.Types P Q ctx ctx where
  column _ _ _ _ _ := hrefl _ _ ((Level.lookupFrom_noViewCycle _ _ _ _ _ _ _).recover _)
  named _ _ _ := hrefl _ _ (ctx.store.namedType_noViewCycle _)
  unknown _ _ := hrefl _ _ (NoViewCycle.recover (.error (by simp [LoadProblem.code])) _)
  function _ _ _ _ _ := hrefl _ _ ((ctx.store.functionType_noViewCycle _ _ _ _).recover _)
  field _ _ _ := hrefl _ _ (SqlType.field_noViewCycle _ _ _ _)

theorem Reflexive.missing (hmode : ctx.mode = ctx'.mode) (n : QualifiedName) (span : Span) :
    C.act (ctx.missing n span) (ctx'.missing n span) := by
  unfold ResolveContext.missing
  rw [← hmode]
  cases ctx.mode with
  | lenient => exact C.pure_act _
  | strict => exact C.lift (hrefl _ (.error _) (.error (by simp [LoadProblem.code])))

/-- Contexts that differ in how views are read are related if the views are. -/
theorem Reflexive.contexts_of_views {store : Store} {mode : ResolveMode} {views views' : ViewReader}
    (h : ∀ n, P ⟨.table, n⟩ → ∀ name text columns, store.table? n = some (.view name text columns) →
      C.act (views name text columns) (views' name text columns)) :
    C.Contexts P ⟨store, mode, views⟩ ⟨store, mode, views'⟩ where
  push _ h := by rw [h]
  types _ h := by subst h; exact hrefl.types P _ _
  star _ _ _ _ := hrefl _ _ (Level.star_noViewCycle _ _ _ _ _)
  table schema name asName isResult span hn := table_related asName isResult span rfl
      (fun _ _ _ => hrefl _ _ (store.typeColumns_noViewCycle _))
      (fun found text columns hf => h _ hn found text columns hf) (hrefl.missing rfl _ _)

end

end Comparison

open Requests (All mem_keys_addType mem_keys_addFunction mem_keys_addTable)

theorem Requests.All.exists_of_foldl {f : α → TypeExpr} {items : List α}
    (h : (items.foldl (fun r a => (f a).addNeeds r) r).All P) :
    ∀ a ∈ items, ∃ r, ((f a).addNeeds r).All P := by
  induction items generalizing r with
  | nil => intro a ha; cases ha
  | cons b items ih =>
    intro a ha
    rw [foldl_cons] at h
    rcases mem_cons.1 ha with rfl | ha
    · exact ⟨r, h.of_foldl⟩
    · exact ih h a ha

theorem TypeExpr.resolve_related {C : Comparison} {Q : ColumnRef → Prop} {ctx ctx' : TypeContext}
    (hC : C.Types P Q ctx ctx') (t : TypeExpr) (h : (t.addNeeds r).All P)
    (hQ : ∀ ref ∈ t.columnRefs, Q ref) : C.outcome (t.resolve ctx) (t.resolve ctx') := by
  induction t using induction_parts generalizing r with
  | step t ih =>
    rw [addNeeds_eq_foldl] at h
    have hown : (t.addOwn r).All P := All.of_foldl (f := fun t => t) h
    have hparts (u : TypeExpr) (hu : u ∈ t.parts) : C.outcome (u.resolve ctx) (u.resolve ctx') := by
      obtain ⟨r, hr⟩ := All.exists_of_foldl (f := fun t => t) h u hu
      exact ih u hu hr fun ref href => hQ ref (mem_columnRefs.2 (.inr ⟨u, hu, href⟩))
    have hnamed {n : QualifiedName} (hn : t.addOwn r = r.addType n) :=
      hC.named n (hown _ (by simp [hn])) (hown _ (by simp [hn]))
    cases t with
    | known | star => exact C.ok _
    | column => exact hC.column _ _ _ _ (hQ _ (by simp [columnRefs]))
    | record => exact C.bind (hnamed rfl) fun _ => C.ok _
    | named =>
      refine C.bind (hnamed rfl) fun found => ?_
      cases found with
      | none => exact hC.unknown _ _
      | some t => exact C.ok _
    | function | functionArgument =>
      rw [resolve, resolve, resolveList_eq_mapM, resolveList_eq_mapM]
      exact C.bind (C.mapM hparts) fun _ => hC.function _ (hown _ (by simp [addOwn])) ..
    | operator _ left right | cast left right =>
      exact C.bind (hparts left (by simp [parts])) fun _ =>
        C.bind (hparts right (by simp [parts])) fun _ => C.ok _
    | array value | arrayItem value | optional value | asArray value =>
      exact C.bind (hparts value (by simp [parts])) fun _ => C.ok _
    | fieldAccess value name span =>
      exact C.bind (hparts value (by simp [parts])) fun v => hC.field v name span
    | union | coalesce =>
      rw [resolve, resolve, resolveList_eq_mapM, resolveList_eq_mapM]
      exact C.bind (C.mapM hparts) fun _ => C.ok _
    | object =>
      rw [resolve, resolve, resolveFields_eq_mapM, resolveFields_eq_mapM]
      refine C.bind (C.mapM fun f hf => ?_) fun _ => C.ok _
      obtain ⟨name, t⟩ := f
      exact C.bind (hparts t (mem_map_of_mem hf)) fun _ => C.ok _

/-! ## Interfaces -/

section

variable {C : Comparison} {Q : List Level → ColumnRef → Prop}
  {S : List Level → List Level → Prop} {ctx ctx' : ResolveContext} (hC : C.Scoped P Q S ctx ctx')
include hC

theorem ResolveContext.tables_related (sources : List Source)
    (h : (Source.addNeedsList sources r).All P) :
    C.act (ctx.tables sources) (ctx'.tables sources) := by
  induction sources generalizing r with
  | nil => exact C.pure_act _
  | cons source sources ih =>
    simp only [Source.addNeedsList] at h
    have hsource : C.act (ctx.table source) (ctx'.table source) := by
      cases source with
      | table schema name => exact hC.table _ _ _ _ _ (h.of_sources _ (by simp [Source.addNeeds]))
      | query | values => exact C.pure_act _
    exact C.bindAct hsource fun found _ => C.bindAct (ih h) fun rest _ => C.pure_act _

theorem ResolveContext.valueColumns_related {levels levels' : List Level} (hS : S levels levels')
    (names : Option (List String)) (i : Nat) (types : List TypeExpr)
    (h : (types.foldl (fun r t => t.addNeeds r) r).All P)
    (hQ : ∀ ref ∈ types.flatMap TypeExpr.columnRefs, Q levels ref) :
    C.outcome (ctx.valueColumns levels names i types)
      (ctx'.valueColumns levels' names i types) := by
  induction types generalizing i r with
  | nil => exact C.ok _
  | cons t types ih =>
    rw [flatMap_cons, forall_mem_append] at hQ
    have ht : (t.addNeeds r).All P := All.of_foldl (f := fun t => t) h
    refine C.bind (TypeExpr.resolve_related (hC.types .other hS) t ht hQ.1) fun t => ?_
    exact C.bind (ih _ h hQ.2) fun rest => C.ok _

/-- A star needs the sources to be the same; other results are looked up in related scopes. -/
theorem ResolveContext.finish_related {level level' : Level} {outer outer' : List Level}
    (hS : S (level :: outer) (level' :: outer')) (params : List (Param TypeExpr))
    (results : List ResultColumn) (nested : List (Param SqlType))
    (hstar : level = level' ∨ ∀ c ∈ results, ∀ schema table span,
      ResultColumn.type c ≠ .star schema table span)
    (hparams : ∀ p ∈ params, ∃ r, ((Param.type p).addNeeds r).All P)
    (hresults : ∀ c ∈ results, ∃ r, ((ResultColumn.type c).addNeeds r).All P)
    (hQ : ∀ ref ∈ params.flatMap (·.type.columnRefs) ++ results.flatMap (·.type.columnRefs),
      Q (level :: outer) ref) :
    C.outcome (ctx.finish level outer params results nested)
      (ctx'.finish level' outer' params results nested) := by
  obtain ⟨hQparams, hQresults⟩ := forall_mem_append.1 hQ
  refine C.bind (C.mapM fun c hc => ?_) fun columns =>
    C.bind (C.mapM fun p hp => ?_) fun _ => C.ok _
  · obtain ⟨r, hr⟩ := hresults c hc
    have hrefs : ∀ ref ∈ c.type.columnRefs, Q (level :: outer) ref := fun ref href =>
      hQresults ref (mem_flatMap.2 ⟨c, hc, href⟩)
    have hnostar := fun h : level ≠ level' => hstar.resolve_left h c hc
    obtain ⟨name, t, span⟩ := c
    have ht := TypeExpr.resolve_related (hC.types .result hS) t hr hrefs
    cases t with
    | star schema table span =>
      by_cases hsame : level = level'
      · rw [← hsame]; exact hC.star level schema table span
      · exact absurd rfl (hnostar hsame schema table span)
    | _ => exact C.bind ht fun t => C.ok _
  · obtain ⟨r, hr⟩ := hparams p hp
    have hrefs : ∀ ref ∈ p.type.columnRefs, Q (level :: outer) ref := fun ref href =>
      hQparams ref (mem_flatMap.2 ⟨p, hp, href⟩)
    exact C.bind (TypeExpr.resolve_related (hC.types _ hS) p.type hr hrefs) fun t => C.ok _

mutual

theorem Interface.resolveIn_scoped (q : Interface)
    {outer outer' : List Level} (hS : S outer outer') {r : Requests} (h : (q.addNeeds r).All P)
    (hQ : ∀ levels ref, q.LooksUp C.start ctx ref outer levels → Q levels ref) :
    C.act (q.resolveIn ctx outer) (q.resolveIn ctx' outer') := by
  obtain ⟨sources, params, results, nullable⟩ := q
  have hparams := h.of_foldl
  refine C.bindAct (ResolveContext.tables_related hC sources hparams.of_foldl)
    fun tables htables => ?_
  refine C.bindAct (Source.resolveList_scoped sources hS tables hparams.of_foldl
    fun levels ref href => hQ levels ref (.sources htables href)) fun found hfound => ?_
  exact C.lift (ResolveContext.finish_related hC (hC.push _ hS) _ _ _ (.inl rfl)
    hparams.exists_of_foldl h.exists_of_foldl
    fun ref href => hQ _ ref (.own htables hfound href))

theorem Source.resolve_scoped (source : Source)
    {outer outer' : List Level} {level level' : Level}
    (hS : S (level :: outer) (level' :: outer')) {r : Requests} (h : (source.addNeeds r).All P)
    (hQ : ∀ levels ref, source.LooksUp C.start ctx ref outer level levels → Q levels ref) :
    C.act (Source.resolve ctx source outer level) (Source.resolve ctx' source outer' level') := by
  cases source with
  | table => exact C.pure_act _
  | query name q isResult =>
    exact C.bindAct (Interface.resolveIn_scoped q hS h
      fun levels ref href => hQ levels ref (.query href)) fun typed _ => C.pure_act _
  | values name columns types isResult =>
    refine C.bindAct (C.lift ?_) fun columns _ => C.pure_act _
    exact ResolveContext.valueColumns_related hC hS _ _ types h
      fun ref href => hQ _ ref (.values href)

theorem Source.resolveList_scoped (sources : List Source)
    {outer outer' : List Level} (hS : S outer outer') (level : Level) {r : Requests}
    (h : (Source.addNeedsList sources r).All P)
    (hQ : ∀ levels ref, Source.LooksUpList C.start ctx ref sources outer level levels →
      Q levels ref) :
    C.act (Source.resolveList ctx sources outer level)
      (Source.resolveList ctx' sources outer' level) := by
  cases sources with
  | nil => exact C.pure_act _
  | cons source sources =>
    simp only [Source.addNeedsList] at h
    refine C.bindAct (Source.resolve_scoped source (hC.push level hS) h.of_sources
      fun levels ref href => hQ levels ref (.head href)) fun found hfound => ?_
    exact C.bindAct (Source.resolveList_scoped sources hS _ h
      fun levels ref href => hQ levels ref (.tail hfound href)) fun rest _ => C.pure_act _

end

end

/-- In the same scope, interfaces are related whatever columns they refer to. -/
theorem Interface.resolveIn_related {C : Comparison} (hC : C.Contexts P ctx ctx') (q : Interface)
    (outer : List Level) (h : (q.addNeeds r).All P) :
    C.act (q.resolveIn ctx outer) (q.resolveIn ctx' outer) :=
  q.resolveIn_scoped hC rfl h fun _ _ _ => trivial

end SqlTyping
