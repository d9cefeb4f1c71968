import SqlTyping.Proofs.Resolution.Params
import SqlTyping.Proofs.Resolution.Stars
import SqlTyping.Proofs.Resolution.Views

/-!
# Resolved types are coherent about null

The types of the catalog are coherent whether they are nullable or not, and what is built of types
that are coherent is so again, but for two things: a common type is nullable only if all its items
are, whatever their members say, and a parameter that must not be null keeps its members. So all
types that a statement is resolved to are coherent if neither it nor a view calls a function with a
common type, apart from such parameters (`Statement.coherent_types`).
-/

namespace SqlTyping

open List

variable {lax : Prop} {columns : List (Field SqlType)} {spelling : String} {name : QualifiedName}
  {args : List SqlType} {m : FunctionMatch} {span : Span} {schema table : Option String}
  {mode : ResolveMode} {H : SqlType → Prop} {q : Interface}

/-! ## Types of the catalog -/

namespace SqlType

variable {t : SqlType}

theorem Firm.withNullable (h : t.Firm lax) (n : Bool) : (t.withNullable n).Firm lax := fun m => h m

/-- No label is nullable. -/
theorem firm_labels (labels : List String) : (union (labels.map literal)).Firm lax := by
  have hformed : ∀ t ∈ labels.map literal, t.Formed lax := by
    intro t ht
    obtain ⟨label, -, rfl⟩ := mem_map.1 ht
    exact .of_parts_eq_nil rfl
  rcases union_cases (labels.map literal) with
    heq | ⟨only, honly, n, heq⟩ | ⟨several, n, hsub, -, heq⟩
  · rw [heq]
    exact firm_of_isBasic rfl
  · obtain ⟨honly, hunion, -⟩ := formed_of_distinctMembers hformed honly
    rw [heq]
    exact (honly.firm hunion).withNullable n
  · refine fun n => ((formed_union hformed).withNullable n).coherent fun ms hms => ?_
    rw [heq] at hms
    cases hms
    refine .inr (.inr fun m hm => ?_)
    obtain ⟨y, hy, -, -, hnullable⟩ := mem_distinctMembers (hsub hm)
    obtain ⟨t, ht, hy⟩ := mem_flatMap.1 hy
    obtain ⟨label, -, rfl⟩ := mem_map.1 ht
    cases mem_singleton.1 hy
    exact hnullable.symm

theorem firm_arrays (h : t.Firm lax) (n : Nat) : (t.arrays n).Firm lax := by
  induction n with
  | zero => exact h
  | succ n ih => exact ih.coherent.firm_array rfl

theorem firm_typeOfSpelling {named : QualifiedName → Except LoadError (Option SqlType)}
    (hnamed : ∀ name t, named name = .ok (some t) → t.Firm lax)
    (h : typeOfSpelling named spelling = .ok t) : t.Firm lax := by
  unfold typeOfSpelling at h
  split at h
  · next hbuiltin => exact Except.ok.inj h ▸ firm_builtinType hbuiltin
  · dsimp only at h
    split at h
    · cases h
    · exact Except.ok.inj h ▸ fun n => .of_parts_eq_nil rfl
    · next hfound => exact Except.ok.inj h ▸ firm_arrays (hnamed _ _ hfound) _

end SqlType

namespace Store

variable {s : Store} {t : SqlType}

theorem firm_namedTypeWithin {depth : Nat} (h : s.namedTypeWithin depth name = .ok (some t)) :
    t.Firm lax := by
  induction depth using Nat.strongRecOn generalizing name t with
  | ind depth ih =>
  unfold namedTypeWithin at h
  split at h
  · cases h
    exact (SqlType.firm_labels _).withPostgres _
  · split at h
    · cases h
    · cases h
    · next found attributes depth _ =>
      obtain ⟨fields, hfields, h⟩ := bind_eq_ok h
      cases h
      have hvalues : ∀ f ∈ fields, f.value.Coherent lax := by
        refine forall_of_mapM_eq_ok hfields fun a _ f hf => ?_
        obtain ⟨t, ht, hf⟩ := bind_eq_ok hf
        cases hf
        exact SqlType.firm_typeOfSpelling (fun _ _ => ih depth (Nat.lt_succ_self depth)) ht _
      have hformed : (SqlType.composite found.name fields).Formed lax :=
        ⟨forall_mem_map.2 hvalues, fun _ h => by cases h⟩
      exact (hformed.firm rfl).withPostgres found.name

theorem firm_typeNamed (h : s.typeNamed spelling = .ok t) : t.Firm lax :=
  SqlType.firm_typeOfSpelling (fun _ _ => firm_namedTypeWithin) h

theorem coherent_typeColumns {columns : List Column} {fields : List (Field SqlType)}
    (h : s.typeColumns columns = .ok fields) : ∀ f ∈ fields, f.value.Coherent lax := by
  refine forall_of_mapM_eq_ok h fun column _ field hfield => ?_
  obtain ⟨t, ht, hfield⟩ := bind_eq_ok hfield
  cases hfield
  exact firm_typeNamed ht _

theorem firm_matchFunction {overloads : List CatalogRecord}
    (h : s.matchFunction args overloads = .ok (some m)) : ∀ t ∈ m.declared, t.Firm lax := by
  induction overloads with
  | nil => cases h
  | cons record rest ih =>
    cases record with
    | function name declared returns isAggregate =>
      rw [matchFunction] at h
      split at h
      · exact ih h
      · obtain ⟨types, htypes, h⟩ := bind_eq_ok h
        split at h
        · cases h
          exact forall_of_mapM_eq_ok htypes fun _ _ _ => firm_typeNamed
        · exact ih h
    | table | view | enum | composite => exact ih h

/-- A polymorphic function returns what it is passed. -/
theorem FunctionMatch.coherent_result (hargs : ∀ t ∈ args, t.Coherent lax) (ht : t.Coherent lax) :
    (m.result args t).Coherent lax := by
  have hresult : (if t.isAny then (m.polymorphic? args).getD t else t).Coherent lax := by
    split
    · cases hp : m.polymorphic? args with
      | none => exact ht
      | some actual =>
        obtain ⟨⟨_, _⟩, hpair, rfl⟩ := Option.map_eq_some_iff.1 hp
        exact hargs _ (of_mem_zip (mem_of_find?_eq_some hpair)).2
    · exact ht
  unfold FunctionMatch.result
  dsimp only
  split
  · split
    · next items hkind =>
      have hitems : items.Coherent lax := hresult.formed.parts items
        (by simp [SqlType.parts, hkind])
      exact hitems.withNullable fun _ => rfl
    · exact hresult.withNullable fun _ => rfl
  · exact hresult.withNullable fun h => by rw [h, Bool.true_or]

theorem coherent_functionType {index : Option Nat} (hargs : ∀ t ∈ args, t.Coherent lax)
    (h : s.functionType name args index span = .ok t) : t.Coherent lax := by
  unfold functionType at h
  split at h
  · cases h
  · obtain ⟨found, hfound, h⟩ := bind_eq_ok h
    cases found with
    | none => cases h
    | some m =>
      cases index with
      | some index =>
        cases h
        cases hdeclared : m.declared[index]? with
        | none => exact .of_parts_eq_nil rfl
        | some t => exact (firm_matchFunction hfound t (mem_of_getElem? hdeclared)).coherent
      | none =>
        obtain ⟨declared, hdeclared, h⟩ := bind_eq_ok h
        cases h
        exact FunctionMatch.coherent_result hargs (firm_typeNamed hdeclared).coherent

end Store

/-! ## Types that wait -/

/-- All columns of the sources are coherent. -/
def Level.Coherent (lax : Prop) (level : Level) : Prop :=
  ∀ s ∈ level, ∀ c ∈ s.columns, c.value.Coherent lax

namespace TypeExpr

variable {ctx : TypeContext} {u : SqlType}

theorem coherent_lookup {levels : List Level} {name : String} {position : ColumnPosition}
    (hlevels : ∀ level ∈ levels, level.Coherent lax)
    (h : Level.lookup levels schema table name span position = .ok u) : u.Coherent lax := by
  obtain ⟨depth, s, c, ha, rfl⟩ := Level.lookupFrom_eq_ok ⟨schema, table, name⟩ h
  obtain ⟨level, _, hlevel, hhits, -⟩ := ha.exists_hits
  obtain ⟨hs, hc⟩ := Level.mem_hits (hhits ▸ mem_singleton_self _)
  exact hlevels level (mem_of_getElem? hlevel) s hs c (mem_of_find?_eq_some hc)

theorem recover_eq_ok {o : Except LoadError SqlType} (h : recover mode o = .ok u) :
    o = .ok u ∨ u = .unknown := by
  unfold recover at h
  split at h
  · split at h
    · exact .inr (Except.ok.inj h).symm
    · cases h
  · exact .inl h

theorem firm_named {name : String} {nullable : Bool}
    (h : (named schema name nullable span).resolve ctx = .ok u) : u.Firm lax := by
  rw [resolve] at h
  obtain ⟨found, hfound, h⟩ := bind_eq_ok h
  cases found with
  | none =>
    rcases recover_eq_ok h with h | rfl
    · cases h
    · exact SqlType.firm_of_isBasic rfl
  | some t =>
    cases h
    exact (Store.firm_namedTypeWithin hfound).withNullable _

theorem firm_ofDataType {target : DataType} (h : (ofDataType target span).resolve ctx = .ok u) :
    u.Firm lax := by
  unfold ofDataType at h
  split at h
  · next hbuiltin =>
    cases h
    exact firm_builtinType hbuiltin
  · generalize target.dimensions = n at h
    induction n generalizing u with
    | zero => exact firm_named h
    | succ n ih =>
      rw [arrays, resolve] at h
      obtain ⟨items, hitems, h⟩ := bind_eq_ok h
      cases h
      exact (ih hitems).coherent.firm_array rfl

theorem forall_resolveList {ts : List TypeExpr} {us : List SqlType}
    (h : resolveList ctx ts = .ok us) (ht : ∀ t ∈ ts, ∀ {u}, t.resolve ctx = .ok u → H u) :
    ∀ u ∈ us, H u := by
  rw [resolveList_eq_mapM] at h
  exact forall_of_mapM_eq_ok h fun t hm _ => ht t hm

theorem forall_resolveFields {fs : List (Field TypeExpr)} {gs : List (Field SqlType)}
    (h : resolveFields ctx fs = .ok gs) (hf : ∀ f ∈ fs, ∀ {u}, f.value.resolve ctx = .ok u → H u) :
    ∀ g ∈ gs, H g.value := by
  rw [resolveFields_eq_mapM] at h
  refine forall_of_mapM_eq_ok h fun f hm g hg => ?_
  obtain ⟨name, t⟩ := f
  obtain ⟨u, hu, hg⟩ := bind_eq_ok hg
  cases hg
  exact hf _ hm hu

theorem coherent_field {t : SqlType} {name : String} (ht : t.Coherent lax)
    (h : t.field mode name span = .ok u) : u.Coherent lax := by
  unfold SqlType.field at h
  split at h
  · next attributes _ hkind =>
    split at h
    · next a ha =>
      cases h
      have hpart : a.value ∈ t.parts := by
        rw [SqlType.parts, hkind]
        exact mem_map_of_mem (mem_of_find?_eq_some ha)
      exact (ht.formed.parts _ hpart).withNullable fun h => by rw [h, Bool.true_or]
    · cases h
  · cases h
    exact .of_parts_eq_nil rfl
  · cases h

theorem Regular.coherent_resolve {t : TypeExpr} (ht : t.Regular lax)
    (hlevels : ∀ level ∈ ctx.levels, level.Coherent lax) (h : t.resolve ctx = .ok u) :
    u.Coherent lax := by
  induction ht generalizing u with
  | known ht =>
    cases h
    exact ht
  | column =>
    rcases recover_eq_ok h with h | rfl
    · exact coherent_lookup hlevels h
    · exact .of_parts_eq_nil rfl
  | record =>
    rw [resolve] at h
    obtain ⟨found, hfound, h⟩ := bind_eq_ok h
    cases h
    cases found with
    | none => exact .of_parts_eq_nil rfl
    | some t => exact (Store.firm_namedTypeWithin hfound).coherent
  | named => exact (firm_named h).coherent
  | function _ ih | functionArgument _ ih =>
    rw [resolve] at h
    obtain ⟨args, hargs, h⟩ := bind_eq_ok h
    rcases recover_eq_ok h with h | rfl
    · exact Store.coherent_functionType (forall_resolveList hargs ih) h
    · exact .of_parts_eq_nil rfl
  | operator =>
    rw [resolve] at h
    obtain ⟨left, -, h⟩ := bind_eq_ok h
    obtain ⟨right, -, h⟩ := bind_eq_ok h
    cases h
    exact Overload.coherent_resolve ..
  | array _ ih | asArray _ ih =>
    rw [resolve] at h
    obtain ⟨items, hitems, h⟩ := bind_eq_ok h
    cases h
    exact (ih hitems).firm_array rfl _
  | arrayItem _ ih =>
    rw [resolve] at h
    obtain ⟨value, hvalue, h⟩ := bind_eq_ok h
    cases h
    unfold SqlType.item
    split
    · next hkind => exact (ih hvalue).formed.parts _ (by simp [SqlType.parts, hkind])
    · exact .of_parts_eq_nil rfl
    · exact .of_parts_eq_nil rfl
  | fieldAccess _ ih =>
    rw [resolve] at h
    obtain ⟨value, hvalue, h⟩ := bind_eq_ok h
    exact coherent_field (ih hvalue) h
  | union _ ih =>
    rw [resolve] at h
    obtain ⟨items, hitems, h⟩ := bind_eq_ok h
    cases h
    exact SqlType.coherent_union (forall_resolveList hitems ih)
  | object _ ih =>
    rw [resolve] at h
    obtain ⟨fields, hfields, h⟩ := bind_eq_ok h
    cases h
    have hformed : (SqlType.object fields).Formed lax :=
      ⟨forall_mem_map.2 (forall_resolveFields hfields ih), fun _ h => by cases h⟩
    exact hformed.firm rfl _
  | cast _ ih =>
    rw [resolve] at h
    obtain ⟨source, -, h⟩ := bind_eq_ok h
    obtain ⟨value, hvalue, h⟩ := bind_eq_ok h
    cases h
    exact firm_ofDataType hvalue _
  | coalesce hlax _ ih =>
    rw [resolve] at h
    obtain ⟨items, hitems, h⟩ := bind_eq_ok h
    cases h
    have hcoherent := forall_resolveList hitems ih
    exact (SqlType.formed_coalesce fun t ht => (hcoherent t ht).formed).of_lax hlax

end TypeExpr

/-! ## Resolutions -/

/-- Where what is known of views has the property `V`, it has it again afterwards, and a result has
the property `Q`. -/
def Resolve.Ensures {α : Type} (V : ViewColumns → Prop) (x : Resolve α) (Q : α → Prop) : Prop :=
  ∀ views a known, V views → x.run.run views = (.ok a, known) → V known ∧ Q a

namespace Resolve.Ensures

variable {α β : Type} {V : ViewColumns → Prop} {x : Resolve α} {f : α → Resolve β} {Q : α → Prop}
  {R : β → Prop}

theorem bind (hx : x.Ensures V Q) (hf : ∀ a, Q a → (f a).Ensures V R) : (x >>= f).Ensures V R := by
  intro views b known hviews hrun
  obtain ⟨a, between, ha, hb⟩ := Resolve.run_bind_ok hrun
  obtain ⟨hbetween, hq⟩ := hx views a between hviews ha
  exact hf a hq between b known hbetween hb

theorem lift {o : Except LoadError α} (h : ∀ a, o = .ok a → Q a) : (ofOutcome o).Ensures V Q := by
  intro views a known hviews hrun
  obtain ⟨ha, rfl⟩ := Prod.mk.inj hrun
  exact ⟨hviews, h a ha⟩

theorem pure {a : α} (h : Q a) : (Pure.pure a : Resolve α).Ensures V Q :=
  lift (o := .ok a) fun _ ha => Except.ok.inj ha ▸ h

theorem atSpan (hx : x.Ensures V Q) (span : Span) : (SqlTyping.atSpan span x).Ensures V Q := by
  intro views a known hviews hrun
  rw [Resolve.run_atSpan] at hrun
  obtain ⟨ha, hknown⟩ := Prod.mk.inj hrun
  refine hx views a known hviews (Prod.ext ?_ hknown)
  cases ho : (x.run.run views).1 with
  | error e =>
    rw [ho] at ha
    cases ha
  | ok a' =>
    rw [ho] at ha
    exact ha

end Resolve.Ensures

/-- The types of a parameter that must not be null are formed. -/
structure Param.Coherent (lax : Prop) (p : Param SqlType) : Prop where
  formed : p.type.Formed lax
  coherent : p.required = false → p.type.Coherent lax

instance : Param.EntryLaw SqlType.union (Param.Coherent lax) where
  merge {p q} _ hp hq := by
    refine ⟨SqlType.formed_union (by simp [hp.formed, hq.formed]), fun h => ?_⟩
    obtain ⟨hp', hq'⟩ := Bool.or_eq_false_iff.1 h
    exact SqlType.coherent_union (by simp [hp.coherent hp', hq.coherent hq'])

structure TypedInterface.Coherent (lax : Prop) (typed : TypedInterface) : Prop where
  results : ∀ c ∈ typed.results, c.value.Coherent lax
  params : ∀ p ∈ typed.params, p.Coherent lax

/-- What is known of views is coherent. -/
def ViewColumns.Coherent (lax : Prop) (views : ViewColumns) : Prop :=
  ∀ view ∈ views, ∀ c ∈ view.2, c.value.Coherent lax

theorem ViewColumns.Coherent.lookup {views : ViewColumns} (h : ViewColumns.Coherent lax views)
    (hfound : views.lookup name = some columns) : ∀ c ∈ columns, c.value.Coherent lax := by
  obtain ⟨before, after, rfl, -⟩ := lookup_eq_some_iff.1 hfound
  exact h (name, columns) (by simp)

namespace Level

variable {level : Level}

theorem coherent_singleton {s : TypedSource} (h : ∀ c ∈ s.columns, c.value.Coherent lax) :
    Level.Coherent lax [s] :=
  forall_mem_singleton.2 h

theorem Coherent.setNullable (h : level.Coherent lax) (names : List String) :
    (level.setNullable names).Coherent lax := by
  intro s hs c hc
  obtain ⟨raw, hraw, rfl⟩ := mem_map.1 hs
  split at hc
  · obtain ⟨old, hold, rfl⟩ := mem_map.1 hc
    exact (h raw hraw old hold).withNullable fun _ => rfl
  · exact h raw hraw c hc

theorem Coherent.star (h : level.Coherent lax)
    (hstar : level.star mode schema table span = .ok columns) :
    ∀ c ∈ columns, c.value.Coherent lax := by
  have hfilter (p : TypedSource → Bool) :
      ∀ c ∈ (level.filter p).flatMap (·.columns), c.value.Coherent lax := by
    intro c hc
    obtain ⟨s, hs, hc⟩ := mem_flatMap.1 hc
    exact h s (mem_of_mem_filter hs) c hc
  unfold Level.star at hstar
  split at hstar
  · exact Except.ok.inj hstar ▸ hfilter _
  · split at hstar
    · cases hstar
    · exact Except.ok.inj hstar ▸ hfilter _

end Level

namespace ResolveContext

variable {ctx : ResolveContext} {level : Level} {levels : List Level}

/-- The views of the store are read to coherent columns. -/
def ReadsCoherent (lax : Prop) (ctx : ResolveContext) : Prop :=
  ∀ name text columns, ctx.store.IsView name text columns →
    (ctx.views name text columns).Ensures (ViewColumns.Coherent lax)
      fun columns => ∀ c ∈ columns, c.value.Coherent lax

theorem ensures_table (hctx : ctx.ReadsCoherent lax) (source : Source) :
    (ctx.table source).Ensures (ViewColumns.Coherent lax)
      fun found => Level.Coherent lax found.toList := by
  cases source with
  | query | values => exact .pure nofun
  | table schema name asName isResult span =>
    rw [table]
    split
    · exact Resolve.Ensures.bind (.lift fun _ => Store.coherent_typeColumns) fun columns hcolumns =>
        .pure (Level.coherent_singleton hcolumns)
    · next found text columns hfound =>
      exact ((hctx found text columns ⟨_, hfound⟩).atSpan span).bind fun columns hcolumns =>
        .pure (Level.coherent_singleton hcolumns)
    · split
      · exact .pure nofun
      · exact .lift (o := .error _) fun _ h => by cases h

theorem ensures_tables (hctx : ctx.ReadsCoherent lax) (sources : List Source) :
    (ctx.tables sources).Ensures (ViewColumns.Coherent lax) (Level.Coherent lax) := by
  induction sources with
  | nil => exact .pure nofun
  | cons source rest ih =>
    exact (ensures_table hctx source).bind fun found hfound => ih.bind fun others hothers =>
      .pure (forall_mem_append.2 ⟨hfound, hothers⟩)

theorem coherent_valueColumns (hlevels : ∀ level ∈ levels, level.Coherent lax)
    {types : List TypeExpr} (htypes : ∀ t ∈ types, t.Regular lax) {names : Option (List String)}
    {i : Nat} (h : ctx.valueColumns levels names i types = .ok columns) :
    ∀ c ∈ columns, c.value.Coherent lax := by
  induction types generalizing i columns with
  | nil =>
    cases h
    exact nofun
  | cons t rest ih =>
    obtain ⟨ht, hrest⟩ := forall_mem_cons.1 htypes
    rw [valueColumns] at h
    obtain ⟨u, hu, h⟩ := bind_eq_ok h
    obtain ⟨others, hothers, h⟩ := bind_eq_ok h
    cases h
    exact forall_mem_cons.2 ⟨ht.coherent_resolve hlevels hu, ih hrest hothers⟩

theorem coherent_resultColumns (hlevels : ∀ l ∈ level :: levels, l.Coherent lax)
    {column : ResultColumn} (hcolumn : column.Within (.regular lax))
    (h : ctx.resultColumns level levels column = .ok columns) :
    ∀ c ∈ columns, c.value.Coherent lax := by
  obtain ⟨name, type, span⟩ := column
  rcases hcolumn with htype | ⟨schema, table, span, rfl⟩
  · unfold resultColumns at h
    split at h
    · next heq =>
      cases heq
      cases htype
    · next heq =>
      cases heq
      obtain ⟨u, hu, h⟩ := bind_eq_ok h
      cases h
      exact forall_mem_singleton.2 (TypeExpr.Regular.coherent_resolve htype hlevels hu)
  · exact (hlevels level mem_cons_self).star h

theorem coherent_param (hlevels : ∀ level ∈ levels, level.Coherent lax) {p : Param TypeExpr}
    (hp : p.type.Regular lax) {typed : Param SqlType} (h : ctx.param levels p = .ok typed) :
    typed.Coherent lax := by
  obtain ⟨u, hu, h⟩ := bind_eq_ok h
  cases h
  have hcoherent := hp.coherent_resolve hlevels hu
  refine ⟨?_, fun hrequired => ?_⟩
  · dsimp only
    split
    · exact hcoherent.formed.withNullable false
    · exact hcoherent.formed
  · dsimp only at hrequired ⊢
    rw [hrequired]
    exact hcoherent

theorem coherent_finish (hlevels : ∀ l ∈ level :: levels, l.Coherent lax)
    (hparams : ∀ p ∈ q.params, p.type.Regular lax)
    (hresults : ∀ column ∈ q.results, column.Within (.regular lax)) {nested : List (Param SqlType)}
    (hnested : ∀ p ∈ nested, p.Coherent lax) {typed : TypedInterface}
    (h : ctx.finish level levels q.params q.results nested = .ok typed) : typed.Coherent lax := by
  rw [finish] at h
  obtain ⟨columns, hcolumns, h⟩ := bind_eq_ok h
  obtain ⟨own, hown, h⟩ := bind_eq_ok h
  cases h
  have hcolumns : ∀ cs ∈ columns, ∀ c ∈ cs, c.value.Coherent lax :=
    forall_of_mapM_eq_ok hcolumns fun column hcolumn _ =>
      coherent_resultColumns hlevels (hresults column hcolumn)
  have hown : ∀ p ∈ own, p.Coherent lax :=
    forall_of_mapM_eq_ok hown fun p hp _ => coherent_param hlevels (hparams p hp)
  refine ⟨fun c hc => ?_, ?_⟩
  · rw [TypedInterface.results_foldl_addParam] at hc
    obtain ⟨cs, hcs, hc⟩ := mem_flatten.1 hc
    exact hcolumns cs hcs c hc
  · rw [params_foldl_addParam]
    exact Param.forall_insertAll nofun (forall_mem_append.2 ⟨hown, hnested⟩)

end ResolveContext

/-- The source is resolved to coherent columns, and its parameters are coherent. -/
def Source.ResolvesCoherent (lax : Prop) (ctx : ResolveContext) (source : Source) : Prop :=
  ∀ outer level, (∀ l ∈ level :: outer, l.Coherent lax) →
    (source.resolve ctx outer level).Ensures (ViewColumns.Coherent lax)
      fun found => Level.Coherent lax found.1 ∧ ∀ p ∈ found.2, p.Coherent lax

section

variable {ctx : ResolveContext} {outer : List Level}

theorem Source.ensures_resolveList {sources : List Source}
    (h : ∀ source ∈ sources, source.ResolvesCoherent lax ctx) {level : Level}
    (hlevels : ∀ l ∈ level :: outer, l.Coherent lax) :
    (Source.resolveList ctx sources outer level).Ensures (ViewColumns.Coherent lax)
      fun found => Level.Coherent lax found.1 ∧ ∀ p ∈ found.2, p.Coherent lax := by
  obtain ⟨hlevel, houter⟩ := forall_mem_cons.1 hlevels
  induction sources generalizing level with
  | nil => exact .pure ⟨hlevel, nofun⟩
  | cons source rest ih =>
    obtain ⟨hsource, hrest⟩ := forall_mem_cons.1 h
    refine (hsource outer level hlevels).bind fun found hfound => ?_
    have hnext : (level ++ found.1).Coherent lax := forall_mem_append.2 ⟨hlevel, hfound.1⟩
    refine (ih hrest (forall_mem_cons.2 ⟨hnext, houter⟩) hnext).bind fun others hothers => ?_
    exact .pure ⟨hothers.1, forall_mem_append.2 ⟨hfound.2, hothers.2⟩⟩

theorem Interface.ensures_resolveIn (hctx : ctx.ReadsCoherent lax)
    (houter : ∀ l ∈ outer, l.Coherent lax)
    (hsources : ∀ source ∈ q.sources, source.ResolvesCoherent lax ctx)
    (hparams : ∀ p ∈ q.params, p.type.Regular lax)
    (hresults : ∀ column ∈ q.results, column.Within (.regular lax)) :
    (q.resolveIn ctx outer).Ensures (ViewColumns.Coherent lax) (TypedInterface.Coherent lax) := by
  obtain ⟨sources, params, results, nullableSources⟩ := q
  rw [resolveIn]
  refine (ResolveContext.ensures_tables hctx sources).bind fun tables htables => ?_
  refine (Source.ensures_resolveList hsources (forall_mem_cons.2 ⟨htables, houter⟩)).bind
    fun found hfound => .lift fun typed htyped => ?_
  exact ResolveContext.coherent_finish
    (forall_mem_cons.2 ⟨hfound.1.setNullable nullableSources, houter⟩) hparams hresults hfound.2
    htyped

theorem Source.Within.resolvesCoherent (hctx : ctx.ReadsCoherent lax) {source : Source}
    (h : source.Within (.regular lax)) : source.ResolvesCoherent lax ctx := by
  induction h with
  | table => exact fun _ _ _ => .pure ⟨nofun, nofun⟩
  | query _ hparams hresults ih =>
    intro outer level hlevels
    rw [Source.resolve]
    exact (Interface.ensures_resolveIn hctx hlevels ih hparams hresults).bind fun typed htyped =>
      .pure ⟨Level.coherent_singleton htyped.results, htyped.params⟩
  | values htypes =>
    intro outer level hlevels
    rw [Source.resolve]
    refine Resolve.Ensures.bind (.lift fun _ =>
      ResolveContext.coherent_valueColumns hlevels htypes) fun columns hcolumns => ?_
    exact .pure ⟨Level.coherent_singleton hcolumns, nofun⟩

theorem Interface.Within.ensures_resolveIn (h : q.Within (.regular lax))
    (hctx : ctx.ReadsCoherent lax) (houter : ∀ l ∈ outer, l.Coherent lax) :
    (q.resolveIn ctx outer).Ensures (ViewColumns.Coherent lax) (TypedInterface.Coherent lax) :=
  Interface.ensures_resolveIn hctx houter
    (fun source hs => (h.sources source hs).resolvesCoherent hctx) h.params h.results

end

theorem Statement.within_regular (st : Statement)
    (h : ∀ name ∈ st.calls, name.isCommonType = true → lax) :
    (st.interface []).Within (.regular lax) :=
  st.within_interface ⟨fun _ _ _ => trivial, h⟩ (forall_mem_nil _)

/-- Functions with a common type are called by views only if this is let go. -/
def Store.CallsCommon (lax : Prop) (store : Store) : Prop :=
  ∀ name text columns st, store.IsView name text columns → parse text = .ok st →
    ∀ f ∈ st.calls, f.isCommonType = true → lax

theorem ensures_readView {store : Store} (hstore : store.CallsCommon lax) (mode : ResolveMode)
    (depth : Nat) (opened : List QualifiedName) :
    ResolveContext.ReadsCoherent lax ⟨store, mode, readView store mode depth opened⟩ := by
  induction depth generalizing opened with
  | zero =>
    intro name text columns _ views cs known _ hrun
    cases hrun
  | succ depth ih =>
    intro name text columns hview views cs known hviews hrun
    dsimp only at hrun
    rw [readView, viewColumns_run] at hrun
    split at hrun
    · next hfound =>
      cases hrun
      exact ⟨hviews, hviews.lookup hfound⟩
    · split at hrun
      · cases hrun
      · split at hrun
        · next st hparse =>
          have hwithin := st.within_regular (hstore name text columns st hview hparse)
          have hquery := hwithin.ensures_resolveIn (ih (opened ++ [name])) (forall_mem_nil _)
          split at hrun
          · next typed between htyped =>
            cases hrun
            obtain ⟨hbetween, htyped⟩ := hquery views typed between hviews htyped
            exact ⟨forall_mem_cons.2 ⟨htyped.results, hbetween⟩, htyped.results⟩
          · cases hrun
        · split at hrun
          · next hcolumns =>
            cases hrun
            have hcs : ∀ c ∈ cs, c.value.Coherent lax := Store.coherent_typeColumns hcolumns
            exact ⟨forall_mem_cons.2 ⟨hcs, hviews⟩, hcs⟩
          · cases hrun
        · cases hrun

/-- Types that a statement is resolved to. No member of a union, at any depth, is a union or the
type of `NULL`. If neither the statement nor a view calls a function with a common type, no member
of a union that is not nullable is nullable, but for parameters that must not be null; the parts of
these are coherent, too. -/
theorem Statement.coherent_types {st : Statement} {store : Store} {mode : ResolveMode}
    {loaded : TypedInterface} (h : (st.interface []).resolve store mode = .ok loaded) :
    (∀ c ∈ loaded.results, c.value.Coherent True) ∧
    (∀ p ∈ loaded.params, p.type.Coherent True) ∧
    ((∀ f ∈ st.calls, f.isCommonType = false) → store.CallsCommon False →
      (∀ c ∈ loaded.results, c.value.Coherent False) ∧
      ∀ p ∈ loaded.params, p.type.Formed False ∧ (p.required = false → p.type.Coherent False)) := by
  have hall {lax : Prop} (hcalls : ∀ f ∈ st.calls, f.isCommonType = true → lax)
      (hstore : store.CallsCommon lax) : loaded.Coherent lax := by
    have hctx := ensures_readView hstore mode (store.records.length + 1) []
    have hquery := (st.within_regular hcalls).ensures_resolveIn hctx (forall_mem_nil _)
    exact (hquery [] loaded _ nofun (Prod.ext h rfl)).2
  have hlax : loaded.Coherent True := hall (fun _ _ _ => trivial) fun _ _ _ _ _ _ _ _ _ => trivial
  refine ⟨hlax.results, fun p hp => (hlax.params p hp).formed.of_lax trivial, ?_⟩
  intro hcalls hstore
  have hstrict := hall (fun f hf h => by simp [hcalls f hf] at h) hstore
  exact ⟨hstrict.results, fun p hp =>
    ⟨(hstrict.params p hp).formed, (hstrict.params p hp).coherent⟩⟩

/-- A union of two types, and no view that it could come from. -/
def numberOrString : String := "SELECT CASE WHEN TRUE THEN 1 ELSE 'none' END"

theorem Statement.coherent_types_numberOrString : ∃ st loaded, parse numberOrString = .ok st ∧
    (st.interface []).resolve (.empty []) .strict = .ok loaded ∧
      ∃ c ∈ loaded.results, c.value.isUnion = true ∧ c.value.Coherent False := by
  have hread : (parse numberOrString).toOption.any fun st => (st.calls.all (!·.isCommonType)) &&
      ((st.interface []).resolve (.empty []) .strict).toOption.any fun loaded =>
        loaded.results.any (·.value.isUnion) := by
    decide +kernel
  obtain ⟨st, hp, hread⟩ := exists_of_toOption_any hread
  obtain ⟨hcalls, hread⟩ := Bool.and_eq_true_iff.1 hread
  obtain ⟨loaded, hr, hread⟩ := exists_of_toOption_any hread
  obtain ⟨c, hc, hunion⟩ := any_eq_true.1 hread
  have hstore : Store.CallsCommon False (.empty []) := by
    rintro _ _ _ _ ⟨n, hn⟩
    cases Store.find?_of_table? hn
  obtain ⟨hresults, -⟩ := (coherent_types hr).2.2
    (fun f hf => by simpa using all_eq_true.1 hcalls f hf) hstore
  exact ⟨st, loaded, hp, hr, c, hc, hunion, hresults c hc⟩

end SqlTyping
