import SqlTyping.Proofs.Catalog.Loading
import SqlTyping.Proofs.Outcome
import SqlTyping.Proofs.Resolution.Related

/-!
# Stores that resolve alike

Two stores agree on a set of names if both find the same for each of them, and what they find refers
to names of the set only (`Store.Agrees`). Then an interface that refers to names of the set is
resolved alike (`Agrees.resolve_eq`), whatever else the stores have: types of columns and
attributes, signatures of functions and texts of views do not lead out of the set.

The bound on open views differs between the two stores. It is never reached in either (`Ample`).
-/

namespace SqlTyping

open List

variable {spelling : String} {r : Requests} {key : RecordKey} {α : Type} {s : Store}
  {n : QualifiedName} {overloads : List CatalogRecord} {columns : List Column} (mode : ResolveMode)

/-! ## Spellings of types -/

theorem TypeName.read_of_blank (h : (Text.trim spelling).isEmpty = true) :
    (TypeName.read spelling).schema = none ∧ (TypeName.read spelling).name = "" := by
  have hempty : Text.trim spelling = "" := by simpa using h
  rw [TypeName.read, hempty]
  decide

theorem isBuiltinType_eq (spelling : String) :
    isBuiltinType spelling = (builtinType? spelling).isSome := by
  simp [isBuiltinType, canonicalTypeName?, builtinType?]

theorem Requests.mem_keys_addTypeName : key ∈ (r.addTypeName spelling).keys ↔
      key ∈ r.keys ∨ key ∈ (({} : Requests).addTypeName spelling).keys := by
  unfold Requests.addTypeName
  split <;> simp

theorem Requests.mem_keys_typeNames {f : α → String} {items : List α} :
    key ∈ (items.foldl (fun r a => r.addTypeName (f a)) r).keys ↔
      key ∈ r.keys ∨ ∃ a ∈ items, key ∈ (({} : Requests).addTypeName (f a)).keys := by
  induction items generalizing r with
  | nil => simp
  | cons a items ih => rw [foldl_cons, ih, mem_keys_addTypeName]; simp [or_assoc]

namespace Store

theorem mem_of_composite? {found : QualifiedName} {attributes : List Attribute}
    (h : s.composite? n = some (found, attributes)) :
    .composite found attributes ∈ s.search .composite n := by
  obtain ⟨r, hr, hf⟩ := exists_of_findSome?_eq_some h
  cases r <;> simp at hf
  obtain ⟨rfl, rfl⟩ := hf
  exact hr

/-- The overload that matches is one of those that were tried. -/
theorem mem_of_matchFunction {args : List SqlType} {m : FunctionMatch}
    (hm : s.matchFunction args overloads = .ok (some m)) :
    ∃ name declared isAggregate,
      CatalogRecord.function name declared m.returns isAggregate ∈ overloads := by
  induction overloads with
  | nil => cases hm
  | cons r overloads ih =>
    have hrest : s.matchFunction args overloads = .ok (some m) → ∃ name declared isAggregate,
          CatalogRecord.function name declared m.returns isAggregate ∈ r :: overloads := by
      intro hm
      obtain ⟨name, declared, isAggregate, hmem⟩ := ih hm
      exact ⟨name, declared, isAggregate, mem_cons_of_mem _ hmem⟩
    cases r with
    | function name declared returns isAggregate =>
      rw [matchFunction] at hm
      split at hm
      · exact hrest hm
      · cases hd : declared.mapM s.typeNamed with
        | error e => rw [hd] at hm; cases hm
        | ok types =>
          rw [hd] at hm
          simp only [bind, Except.bind] at hm
          split at hm
          · cases hm; exact ⟨name, declared, isAggregate, mem_cons_self⟩
          · exact hrest hm
    | table | view | enum | composite =>
      rw [matchFunction] at hm
      · exact hrest hm
      · simp

/-! ## Agreement -/

/-- The stores find the same for the names of a set that what they find does not lead out of. The
empty name is in the set: a blank spelling of a type is looked up although it is never asked for. -/
structure Agrees (K : RecordKey → Prop) (s t : Store) : Prop where
  same : ∀ key, K key → s.search key.kind key.name = t.search key.kind key.name
  closed : ∀ key, K key → ∀ r ∈ s.search key.kind key.name, r.needs.All K
  nameless : ∀ kind : RecordKind, kind.space = .enum → K ⟨kind, ⟨none, ""⟩⟩

namespace Agrees

section

variable {K : RecordKey → Prop} {s t : Store} (h : s.Agrees K t)
include h

theorem enum?_eq (hn : K ⟨.enum, n⟩) : s.enum? n = t.enum? n := by
  have hsearch : s.search .enum n = t.search .enum n := h.same _ hn
  rw [enum?, enum?, hsearch]

theorem composite?_eq (hn : K ⟨.composite, n⟩) : s.composite? n = t.composite? n := by
  have hsearch : s.search .composite n = t.search .composite n := h.same _ hn
  rw [composite?, composite?, hsearch]

/-- Spellings are typed alike if the names in them are found alike. -/
theorem typeOfSpelling_eq {named named' : QualifiedName → Except LoadError (Option SqlType)}
    (hnamed : ∀ n, K ⟨.enum, n⟩ → K ⟨.composite, n⟩ → named n = named' n)
    (hk : (({} : Requests).addTypeName spelling).All K) :
    typeOfSpelling named spelling = typeOfSpelling named' spelling := by
  unfold typeOfSpelling
  cases hb : builtinType? spelling with
  | some t => rfl
  | none =>
    dsimp only
    rw [hnamed]
    all_goals
      by_cases hblank : (Text.trim spelling).isEmpty = true
      · obtain ⟨hschema, hname⟩ := TypeName.read_of_blank hblank
        rw [hschema, hname]
        exact h.nameless _ rfl
      · refine hk _ ?_
        rw [Requests.addTypeName, if_neg (by simp [hblank, isBuiltinType_eq, hb])]
        simp

theorem namedTypeWithin_eq (depth : Nat) (n : QualifiedName) (he : K ⟨.enum, n⟩)
    (hc : K ⟨.composite, n⟩) : s.namedTypeWithin depth n = t.namedTypeWithin depth n := by
  induction depth generalizing n with
  | zero =>
    unfold namedTypeWithin
    rw [h.enum?_eq he, h.composite?_eq hc]
    cases t.composite? n <;> rfl
  | succ depth ih =>
    unfold namedTypeWithin
    rw [h.enum?_eq he, ← h.composite?_eq hc]
    cases hf : s.composite? n with
    | none => rfl
    | some found =>
      obtain ⟨found, attributes⟩ := found
      have hneeds := h.closed _ hc _ (mem_of_composite? hf)
      have htype : ∀ a ∈ attributes, typeOfSpelling (s.namedTypeWithin depth) a.pgType =
          typeOfSpelling (t.namedTypeWithin depth) a.pgType := fun a ha =>
        h.typeOfSpelling_eq ih fun key hk =>
          hneeds key (Requests.mem_keys_typeNames.2 (.inr ⟨a, ha, hk⟩))
      dsimp only
      rw [Comparison.equal.mapM fun a ha => Comparison.equal.bind (htype a ha) fun t => rfl]

theorem typeNamed_eq (hk : (({} : Requests).addTypeName spelling).All K) :
    s.typeNamed spelling = t.typeNamed spelling :=
  h.typeOfSpelling_eq (fun n he hc => h.namedTypeWithin_eq _ n he hc) hk

theorem typeColumns_eq
    (hk : (columns.foldl (fun r c => r.addTypeName c.pgType) ({} : Requests)).All K) :
    s.typeColumns columns = t.typeColumns columns := by
  refine Comparison.equal.mapM fun c hc => Comparison.equal.bind (h.typeNamed_eq ?_) fun t => rfl
  exact fun key hkey => hk key (Requests.mem_keys_typeNames.2 (.inr ⟨c, hc, hkey⟩))

/-! ## Functions -/

theorem matchFunction_eq (args : List SqlType) (ho : ∀ r ∈ overloads, r.needs.All K) :
    s.matchFunction args overloads = t.matchFunction args overloads := by
  induction overloads with
  | nil => rfl
  | cons r overloads ih =>
    have hrest := ih fun r hr => ho r (mem_cons_of_mem _ hr)
    cases r with
    | function name declared returns isAggregate =>
      have hneeds := ho _ mem_cons_self
      have htypes : declared.mapM s.typeNamed = declared.mapM t.typeNamed := by
        refine Comparison.equal.mapM fun d hd => h.typeNamed_eq fun key hk => hneeds key ?_
        refine Requests.mem_keys_addTypeName.2 (.inl ?_)
        exact Requests.mem_keys_typeNames (f := id).2 (.inr ⟨d, hd, hk⟩)
      rw [matchFunction, matchFunction, htypes, hrest]
    | table | view | enum | composite => rw [matchFunction, matchFunction, hrest] <;> simp

theorem functionType_eq (hn : K ⟨.function, n⟩) (args : List SqlType) (index : Option Nat)
    (span : Span) : s.functionType n args index span = t.functionType n args index span := by
  have hfunctions : s.functions n = t.functions n := h.same _ hn
  have hoverloads : ∀ r ∈ s.functions n, r.needs.All K := h.closed _ hn
  unfold functionType
  rw [← hfunctions]
  cases hf : s.functions n with
  | nil => rfl
  | cons first overloads =>
    rw [hf] at hoverloads
    dsimp only
    rw [← h.matchFunction_eq args hoverloads]
    refine bind_congr_ok fun found hm => ?_
    cases found with
    | none => rfl
    | some m =>
      obtain ⟨name, declared, isAggregate, hmem⟩ := mem_of_matchFunction hm
      have hneeds := hoverloads _ hmem
      have hreturns : s.typeNamed m.returns = t.typeNamed m.returns :=
        h.typeNamed_eq fun key hk => hneeds key (Requests.mem_keys_addTypeName.2 (.inr hk))
      cases index with
      | none => exact Comparison.equal.bind hreturns fun t => rfl
      | some i => rfl

/-! ## Interfaces -/

theorem types_equal (levels : List Level) (position : ColumnPosition) :
    Comparison.equal.Types K (fun _ => True) ⟨s, mode, levels, position⟩
      ⟨t, mode, levels, position⟩ where
  column _ _ _ _ _ := rfl
  named n he hc := h.namedTypeWithin_eq _ n he hc
  unknown _ _ := rfl
  function n hn args index span := by
    rw [show s.functionType n args index span = t.functionType n args index span from
      h.functionType_eq hn args index span]
    rfl
  field _ _ _ := rfl

/-- Contexts that read views alike resolve interfaces alike. -/
theorem contexts_equal {views views' : ViewReader}
    (hviews : ∀ key, K key → ∀ name text columns,
      .view name text columns ∈ s.search key.kind key.name →
      views name text columns = views' name text columns) :
    Comparison.equal.Contexts K ⟨s, mode, views⟩ ⟨t, mode, views'⟩ where
  push _ hS := by rw [hS]
  types position hS := by subst hS; exact h.types_equal mode _ position
  star _ _ _ _ := rfl
  table schema name asName isResult span hkey := by
    have hsearch : s.search .table ⟨schema, name⟩ = t.search .table ⟨schema, name⟩ := h.same _ hkey
    have hfound : s.table? ⟨schema, name⟩ = t.table? ⟨schema, name⟩ := by
      rw [table?, table?, hsearch]
    refine Comparison.table_related asName isResult span hfound (fun found columns hf => ?_)
      (fun found text columns hf => ?_) (Comparison.reflexive_equal.missing rfl _ _)
    · have hneeds := h.closed _ hkey _ (mem_of_head? hf)
      exact h.typeColumns_eq hneeds
    · exact hviews _ hkey found text columns (mem_of_head? hf)

theorem readView_eq {depth depth' : Nat} {opened : List QualifiedName}
    (hs : Ample s depth opened) (ht : Ample t depth' opened) {name : QualifiedName} {text : String}
    (hkey : K key) (hview : .view name text columns ∈ s.search key.kind key.name) :
    readView s mode depth opened name text columns =
      readView t mode depth' opened name text columns := by
  have hs' : .view name text columns ∈ s.records := mem_records_of_mem_searchRecords hview
  have ht' : .view name text columns ∈ t.records :=
    mem_records_of_mem_searchRecords (h.same key hkey ▸ hview)
  induction depth generalizing depth' opened name text columns key with
  | zero => exact absurd hs.pos (by omega)
  | succ depth ih =>
    obtain ⟨depth', rfl⟩ : ∃ d, depth' = d + 1 := ⟨depth' - 1, by have := ht.pos; omega⟩
    refine Resolve.ext fun views => ?_
    rw [readView, readView, viewColumns_run, viewColumns_run]
    cases views.lookup name with
    | some found => rfl
    | none =>
      dsimp only
      split
      · rfl
      · next hopen =>
        have hnew : name ∉ opened := by simpa using hopen
        have hneeds := h.closed _ hkey _ hview
        cases hp : parse text with
        | ok statement =>
          rw [CatalogRecord.needs_view hp] at hneeds
          have hinner : ∀ key, K key → ∀ n x c, .view n x c ∈ s.search key.kind key.name →
              readView s mode depth (opened ++ [name]) n x c =
                readView t mode depth' (opened ++ [name]) n x c := fun key hkey _ _ _ hv =>
            ih (hs.opening hs' hnew) (ht.opening ht' hnew) hkey hv
              (mem_records_of_mem_searchRecords hv)
              (mem_records_of_mem_searchRecords (h.same key hkey ▸ hv))
          have hquery := Interface.resolveIn_related (h.contexts_equal mode hinner)
            (statement.interface []) [] (r := {})
            fun key hk => hneeds key (Requests.mem_keys_append.2 (.inr hk))
          dsimp only
          rw [hquery]
        | error e =>
          rw [CatalogRecord.needs_view_of_error hp] at hneeds
          rw [h.typeColumns_eq hneeds]
          cases mode <;> rfl

/-- An interface that refers to names of the set is resolved alike. -/
theorem resolve_eq {q : Interface} (hq : q.needs.All K) :
    q.resolve s mode = q.resolve t mode := by
  have hviews : ∀ key, K key → ∀ name text columns,
      .view name text columns ∈ s.search key.kind key.name →
      readView s mode (s.records.length + 1) [] name text columns =
        readView t mode (t.records.length + 1) [] name text columns := fun _ hkey _ _ _ hv =>
    h.readView_eq mode (ample_nil s) (ample_nil t) hkey hv
  have hresolve : q.resolveIn (.ofStore s mode) [] = q.resolveIn (.ofStore t mode) [] :=
    Interface.resolveIn_related (h.contexts_equal mode hviews) q [] hq
  rw [Interface.resolve, Interface.resolve, Interface.resolveWith, Interface.resolveWith, hresolve]

end

end Agrees

end Store

/-! ## Names that are reached -/

/-- The names that requests lead to in a catalog: those asked for, and those that the records found
for them refer to. -/
inductive Reaches (path : List String) (all : List CatalogRecord) (requests : Requests) :
    RecordKey → Prop
  | asked {key : RecordKey} : key ∈ requests.keys → Reaches path all requests key
  | found {key next : RecordKey} {r : CatalogRecord} : Reaches path all requests key →
      r ∈ searchRecords path all key → next ∈ r.needs.keys → Reaches path all requests next

/-- A closed sample of a catalog agrees with a store of the whole catalog on the names that a request
leads to, if these are definite and the request is answered. -/
theorem Store.Samples.agrees {path : List String} {all : List CatalogRecord} (hw : WellFormed all)
    {t : Store} (hs : s.Samples path all) (hc : s.Closed path all) (hpath : t.searchPath = path)
    (hrecords : t.records = all) {requests : Requests}
    (hd : ∀ key, Reaches path all requests key → Definite path all key)
    (hanswered : ∀ key ∈ requests.keys, Answered path all s.records key) :
    s.Agrees (fun key => Reaches path all requests key ∨
      key.kind.space = .enum ∧ key.name = ⟨none, ""⟩) t := by
  have hreach : ∀ key, Reaches path all requests key → Answered path all s.records key := by
    intro key hkey
    induction hkey with
    | asked hk => exact hanswered _ hk
    | found hkey hr hk ih => exact hc _ (ih _ hr) _ hk (hd _ (.found hkey hr hk))
  -- Nothing is found under the empty name.
  have hempty : ∀ key : RecordKey, key.kind.space = .enum ∧ key.name = ⟨none, ""⟩ →
      searchRecords path all key = [] := by
    intro key hkey
    refine eq_nil_iff_forall_not_mem.2 fun r hr => ?_
    obtain ⟨hm, schema, -, hl⟩ := mem_of_mem_searchRecords hw.schema hr
    obtain ⟨hk, hn, -⟩ := CatalogRecord.livesAt_iff.1 hl
    rw [hkey.2] at hn
    have hname : r.name.name = "" := Text.fold_eq_nil.1 (hn.trans (Text.fold_eq_nil.2 rfl))
    exact hw.typeName r hm (by rw [hk]; exact hkey.1) hname
  have hsame : ∀ key, Answered path all s.records key →
      s.search key.kind key.name = searchRecords path all key := fun key hk => by
    rw [search, hs.searchPath]
    exact hs.search_eq hw.schema hk
  have hnone : ∀ key : RecordKey, key.kind.space = .enum ∧ key.name = ⟨none, ""⟩ →
      Answered path all s.records key := fun key hkey r hr => by
    rw [hempty key hkey] at hr
    cases hr
  refine ⟨fun key hkey => ?_, fun key hkey r hr next hn => ?_, fun kind hkind => .inr ⟨hkind, rfl⟩⟩
  · rw [hsame key (hkey.elim (hreach key) (hnone key)), search, hpath, hrecords]
  · rw [hsame key (hkey.elim (hreach key) (hnone key))] at hr
    rcases hkey with hkey | hkey
    · exact .inl (.found hkey hr hn)
    · rw [hempty key hkey] at hr; cases hr

end SqlTyping
