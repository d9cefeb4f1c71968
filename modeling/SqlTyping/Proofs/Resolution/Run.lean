import SqlTyping.Resolution.Basic
import SqlTyping.Proofs.Outcome
import Mathlib.Data.List.Nodup

/-!
# Running resolutions

A resolution is a function of the views that are known. The lemmas here say what the steps do to
them, and what reading a view does (`viewColumns_run`). The bound on open views is never what ends
a resolution: open views are pairwise different records (`Ample`).
-/

namespace SqlTyping

open List

namespace Resolve

variable {opened : List QualifiedName} {α β : Type} {s : Store}

theorem ext {x y : Resolve α} (h : ∀ views, x.run.run views = y.run.run views) : x = y := funext h

theorem run_bind (x : Resolve α) (f : α → Resolve β) (views : ViewColumns) :
    (x >>= f).run.run views =
      match x.run.run views with
      | (.ok a, views) => (f a).run.run views
      | (.error e, views) => (.error e, views) := by
  rw [ExceptT.run_bind, StateT.run_bind]
  obtain ⟨o, known⟩ := x.run.run views
  cases o <;> rfl

theorem run_bind_of_ok {x : Resolve α} (f : α → Resolve β) {views between : ViewColumns} {a : α}
    (h : x.run.run views = (.ok a, between)) : (x >>= f).run.run views = (f a).run.run between := by
  rw [run_bind, h]

theorem run_bind_ok {x : Resolve α} {f : α → Resolve β} {views known : ViewColumns} {b : β}
    (h : (x >>= f).run.run views = (.ok b, known)) :
    ∃ a between, x.run.run views = (.ok a, between) ∧ (f a).run.run between = (.ok b, known) := by
  rw [run_bind] at h
  cases hx : x.run.run views with
  | mk o between =>
    rw [hx] at h
    cases o with
    | error e => cases h
    | ok a => exact ⟨a, between, rfl, h⟩

/-- The resolution can have this result where what is known of views has the property. -/
def Yields {α : Type} (start : ViewColumns → Prop) (x : Resolve α) (a : α) : Prop :=
  ∃ views known, start views ∧ x.run.run views = (.ok a, known)

/-- What follows matters only for results that there can be. -/
theorem bind_congr {x : Resolve α} {f f' : α → Resolve β}
    (h : ∀ a, x.Yields (fun _ => True) a → f a = f' a) : x >>= f = x >>= f' := by
  refine ext fun views => ?_
  rw [run_bind, run_bind]
  cases hx : x.run.run views with
  | mk o known =>
    cases o with
    | error e => rfl
    | ok a => dsimp only; rw [h a ⟨views, known, trivial, hx⟩]

theorem run_get_bind (f : ViewColumns → Resolve β) (views : ViewColumns) :
    ((get : Resolve ViewColumns) >>= f).run.run views = (f views).run.run views := rfl

theorem run_atSpan (span : Span) (x : Resolve α) (views : ViewColumns) :
    (atSpan span x).run.run views =
      ((x.run.run views).1.mapError (·.withSpan span), (x.run.run views).2) := rfl

end Resolve

theorem TypeExpr.resolveList_eq_mapM (ctx : TypeContext) (ts : List TypeExpr) :
    resolveList ctx ts = ts.mapM (resolve ctx) := by
  induction ts with
  | nil => rfl
  | cons t rest ih => rw [resolveList, ih, List.mapM_cons]

theorem TypeExpr.resolveFields_eq_mapM (ctx : TypeContext) (fields : List (Field TypeExpr)) :
    resolveFields ctx fields = fields.mapM (resolveField ctx) := by
  induction fields with
  | nil => rfl
  | cons f rest ih => rw [resolveFields, ih, List.mapM_cons]

variable {ctx : ResolveContext} {outer : List Level} {typed : TypedInterface}

theorem ResolveContext.exists_of_finish_eq_ok {level : Level} {params : List (Param TypeExpr)}
    {results : List ResultColumn} {nested : List (Param SqlType)}
    (h : ctx.finish level outer params results nested = .ok typed) :
    ∃ columns own,
      List.Forall₂ (fun r cs => ctx.resultColumns level outer r = .ok cs) results columns ∧
      List.Forall₂ (fun p q => ctx.param (level :: outer) p = .ok q) params own ∧
      typed = (own ++ nested).foldl TypedInterface.addParam ⟨[], columns.flatten⟩ := by
  obtain ⟨columns, hcolumns, h⟩ := bind_eq_ok h
  obtain ⟨own, hown, h⟩ := bind_eq_ok h
  cases h
  exact ⟨columns, own, forall₂_of_mapM_eq_ok hcolumns, forall₂_of_mapM_eq_ok hown, rfl⟩

theorem Interface.exists_of_resolveIn {q : Interface} {views known : ViewColumns}
    (h : (q.resolveIn ctx outer).run.run views = (.ok typed, known)) :
    ∃ tables between level nested, (ctx.tables q.sources).run.run views = (.ok tables, between) ∧
      (Source.resolveList ctx q.sources outer tables).run.run between =
        (.ok (level, nested), known) ∧
      ctx.finish (level.setNullable q.nullableSources) outer q.params q.results nested =
        .ok typed := by
  obtain ⟨sources, params, results, nullableSources⟩ := q
  obtain ⟨tables, between, htables, h⟩ := Resolve.run_bind_ok h
  obtain ⟨⟨level, nested⟩, _, hlist, h⟩ := Resolve.run_bind_ok h
  obtain ⟨hfinish, rfl⟩ := Prod.mk.inj h
  exact ⟨tables, between, level, nested, htables, hlist, hfinish⟩

/-- Reading a view: a view that is known is not typed again, one that is open is an error, and what
is typed is known from then on. -/
theorem viewColumns_run (store : Store) (mode : ResolveMode) (opened : List QualifiedName)
    (query : Interface → Resolve TypedInterface) (name : QualifiedName) (text : String)
    (columns : List Column) (views : ViewColumns) :
    (viewColumns store mode opened query name text columns).run.run views =
      match views.lookup name with
      | some columns => (.ok columns, views)
      | none =>
        if opened.contains name then (.error { problem := .viewCycle name opened }, views)
        else
          match parse text, mode with
          | .ok statement, _ =>
            match (query (statement.interface [])).run.run views with
            | (.ok typed, views) => (.ok typed.results, (name, typed.results) :: views)
            | (.error e, views) => (.error e, views)
          | .error _, .lenient =>
            match store.typeColumns columns with
            | .ok columns => (.ok columns, (name, columns) :: views)
            | .error e => (.error e, views)
          | .error e, .strict => (.error { problem := .viewSyntax name e }, views) := by
  unfold viewColumns
  rw [Resolve.run_get_bind]
  cases views.lookup name with
  | some found => rfl
  | none =>
    dsimp only
    split
    · rfl
    · cases parse text with
      | ok statement =>
        dsimp only
        rw [Resolve.run_bind]
        obtain ⟨o, known⟩ := (query (statement.interface [])).run.run views
        cases o <;> rfl
      | error e =>
        cases mode with
        | lenient =>
          cases store.typeColumns columns <;> rfl
        | strict => rfl

/-! ## The bound on open views -/

/-- Views that are open are pairwise different records, and there is depth for all others. -/
structure Ample (s : Store) (depth : Nat) (opened : List QualifiedName) : Prop where
  nodup : opened.Nodup
  records : ∀ n ∈ opened, n ∈ s.records.map (·.name)
  depth : s.records.length < depth + opened.length

theorem ample_nil (s : Store) : Ample s (s.records.length + 1) [] := ⟨nodup_nil, by simp, by simp⟩

theorem Ample.pos {depth : Nat} (h : Ample s depth opened) : 0 < depth := by
  have hlen := h.nodup.length_le_of_subset h.records
  have hdepth := h.depth
  rw [length_map] at hlen
  omega

theorem Ample.opening {depth : Nat} (h : Ample s (depth + 1) opened) {r : CatalogRecord}
    (hr : r ∈ s.records) (hn : r.name ∉ opened) : Ample s depth (opened ++ [r.name]) := by
  refine ⟨?_, ?_, ?_⟩
  · exact nodup_append.2 ⟨h.nodup, by simp, by simpa using fun n hm => ne_of_mem_of_not_mem hm hn⟩
  · intro n hm
    rcases mem_append.1 hm with hm | hm
    · exact h.records n hm
    · rw [mem_singleton.1 hm]; exact mem_map_of_mem hr
  · have hdepth := h.depth
    rw [length_append, length_singleton]
    omega

end SqlTyping
