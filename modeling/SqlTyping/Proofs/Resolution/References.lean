import SqlTyping.Proofs.Catalog.Needs
import SqlTyping.Proofs.Resolution.Run
import SqlTyping.Proofs.Tables.Mentions

/-!
# References of an interface

The columns that the types of an interface wait for, and the tables among its sources, as the
statement writes them. The tables are those that the interface needs of the catalog
(`Interface.table_mem_addNeeds`). Each column is looked up in a scope that comes about as the
interface is resolved (`Interface.LooksUp`).
-/

namespace SqlTyping

open List

/-- A column as a statement refers to it. -/
structure ColumnRef where
  schema : Option String
  table : Option String
  column : String
deriving DecidableEq

mutual

/-- The columns that a type waits for. -/
def TypeExpr.columnRefs : TypeExpr → List ColumnRef
  | .known _ | .record .. | .named .. | .star .. => []
  | .column schema table name _ => [⟨schema, table, name⟩]
  | .function _ _ args _ | .functionArgument _ _ args _ _ => TypeExpr.columnRefsList args
  | .operator _ left right _ _ _ => left.columnRefs ++ right.columnRefs
  | .cast source value => source.columnRefs ++ value.columnRefs
  | .array value _ | .arrayItem value | .fieldAccess value _ _ | .optional value
  | .asArray value _ => value.columnRefs
  | .union items | .coalesce items => TypeExpr.columnRefsList items
  | .object fields _ => TypeExpr.columnRefsFields fields

def TypeExpr.columnRefsList : List TypeExpr → List ColumnRef
  | [] => []
  | t :: rest => t.columnRefs ++ TypeExpr.columnRefsList rest

def TypeExpr.columnRefsFields : List (Field TypeExpr) → List ColumnRef
  | [] => []
  | f :: rest => TypeExpr.columnRefsField f ++ TypeExpr.columnRefsFields rest

def TypeExpr.columnRefsField : Field TypeExpr → List ColumnRef
  | ⟨_, t⟩ => t.columnRefs

end

theorem TypeExpr.mem_columnRefs {t : TypeExpr} {ref : ColumnRef} : ref ∈ t.columnRefs ↔
    (∃ span, t = .column ref.schema ref.table ref.column span) ∨
      ∃ u ∈ t.parts, ref ∈ u.columnRefs := by
  have hlist (ts : List TypeExpr) : columnRefsList ts = ts.flatMap columnRefs := by
    induction ts with
    | nil => rfl
    | cons t rest ih => rw [columnRefsList, ih, flatMap_cons]
  have hfields (fields : List (Field TypeExpr)) :
      columnRefsFields fields = (fields.map Field.value).flatMap columnRefs := by
    induction fields with
    | nil => rfl
    | cons f rest ih => cases f; rw [columnRefsFields, ih, columnRefsField, map_cons, flatMap_cons]
  obtain ⟨schema, table, column⟩ := ref
  cases t <;> simp [columnRefs, parts, hlist, hfields, eq_comm]

mutual

/-- The columns that an interface refers to, its nested queries included. -/
def Interface.columnRefs : Interface → List ColumnRef
  | ⟨sources, params, results, _⟩ =>
    Source.columnRefsList sources ++ params.flatMap (·.type.columnRefs)
      ++ results.flatMap (·.type.columnRefs)

def Source.columnRefs : Source → List ColumnRef
  | .table .. => []
  | .query _ q _ => q.columnRefs
  | .values _ _ types _ => types.flatMap TypeExpr.columnRefs

def Source.columnRefsList : List Source → List ColumnRef
  | [] => []
  | source :: rest => source.columnRefs ++ Source.columnRefsList rest

end

/-! ## Lookups -/

mutual

/-- Resolving the interface in the scope `outer` looks the reference up in the scope `levels`. The
sources in scope are those that there can be where what is known of views has the property `start`.
-/
inductive Interface.LooksUp (start : ViewColumns → Prop) (ctx : ResolveContext) (ref : ColumnRef) :
    (q : Interface) → (outer levels : List Level) → Prop
  | own {q outer tables level nested} :
      (ctx.tables q.sources).Yields start tables →
      (Source.resolveList ctx q.sources outer tables).Yields start (level, nested) →
      ref ∈ q.params.flatMap (·.type.columnRefs) ++ q.results.flatMap (·.type.columnRefs) →
      Interface.LooksUp start ctx ref q outer (level.setNullable q.nullableSources :: outer)
  | sources {q outer tables levels} :
      (ctx.tables q.sources).Yields start tables →
      Source.LooksUpList start ctx ref q.sources outer tables levels →
      Interface.LooksUp start ctx ref q outer levels

inductive Source.LooksUp (start : ViewColumns → Prop) (ctx : ResolveContext) (ref : ColumnRef) :
    (source : Source) → (outer : List Level) → (level : Level) → (levels : List Level) → Prop
  | query {name q isResult outer level levels} :
      Interface.LooksUp start ctx ref q (level :: outer) levels →
      Source.LooksUp start ctx ref (.query name q isResult) outer level levels
  | values {name columns types isResult outer level} :
      ref ∈ types.flatMap TypeExpr.columnRefs →
      Source.LooksUp start ctx ref (.values name columns types isResult) outer level
        (level :: outer)

inductive Source.LooksUpList (start : ViewColumns → Prop) (ctx : ResolveContext) (ref : ColumnRef) :
    (sources : List Source) → (outer : List Level) → (level : Level) → (levels : List Level) → Prop
  | head {source rest outer level levels} :
      Source.LooksUp start ctx ref source outer level levels →
      Source.LooksUpList start ctx ref (source :: rest) outer level levels
  | tail {source rest outer level found params levels} :
      (Source.resolve ctx source outer level).Yields start (found, params) →
      Source.LooksUpList start ctx ref rest outer (level ++ found) levels →
      Source.LooksUpList start ctx ref (source :: rest) outer level levels

end

mutual

/-- What is looked up is what the interface refers to. -/
theorem Interface.mem_columnRefs (q : Interface) (h : q.LooksUp start ctx ref outer levels) :
    ref ∈ q.columnRefs := by
  obtain ⟨sources, params, results, nullable⟩ := q
  simp only [Interface.columnRefs, mem_append]
  cases h with
  | own _ _ href =>
    rcases mem_append.1 href with href | href
    · exact .inl (.inr href)
    · exact .inr href
  | sources _ h => exact .inl (.inl (Source.mem_columnRefsList sources h))

theorem Source.mem_columnRefs (source : Source)
    (h : source.LooksUp start ctx ref outer level levels) : ref ∈ source.columnRefs := by
  cases source with
  | table => cases h
  | query name q isResult =>
    cases h with
    | query h => exact Interface.mem_columnRefs q h
  | values name columns types isResult =>
    cases h with
    | values h => exact h

theorem Source.mem_columnRefsList (sources : List Source)
    (h : Source.LooksUpList start ctx ref sources outer level levels) :
    ref ∈ Source.columnRefsList sources := by
  cases sources with
  | nil => cases h
  | cons source sources =>
    simp only [Source.columnRefsList, mem_append]
    cases h with
    | head h => exact .inl (Source.mem_columnRefs source h)
    | tail _ h => exact .inr (Source.mem_columnRefsList sources h)

end

/-! ## Tables -/

def TableUse.qualified (use : TableUse) : QualifiedName := ⟨use.schema, use.name⟩

/-- The tables and views that an interface has as sources, its nested queries included. -/
def Interface.tableRefs (q : Interface) : List QualifiedName := q.tables.map TableUse.qualified

/-- Types do not refer to tables. -/
theorem Requests.lasting_table (n : QualifiedName) (r : Requests) :
    Requests.Lasting fun s => ⟨.table, n⟩ ∈ s.keys ↔ ⟨.table, n⟩ ∈ r.keys where
  function h _ := by simpa using h
  type h _ := by simpa using h

theorem Requests.table_mem_foldl {α : Type} {f : α → TypeExpr} {items : List α} :
    ⟨.table, n⟩ ∈ (items.foldl (fun r a => (f a).addNeeds r) r).keys ↔ ⟨.table, n⟩ ∈ r.keys :=
  foldlRecOn (motive := fun s : Requests => ⟨.table, n⟩ ∈ s.keys ↔ ⟨.table, n⟩ ∈ r.keys) items _
    .rfl fun _ h a _ => (f a).addNeeds_preserves (lasting_table n r) h

mutual

theorem Interface.table_mem_addNeeds (q : Interface) :
    ⟨.table, n⟩ ∈ (q.addNeeds r).keys ↔ ⟨.table, n⟩ ∈ r.keys ∨ n ∈ q.tableRefs := by
  obtain ⟨sources, params, results, nullable⟩ := q
  simp only [Interface.addNeeds]
  rw [Requests.table_mem_foldl, Requests.table_mem_foldl]
  exact Source.table_mem_addNeedsList sources

theorem Source.table_mem_addNeeds (source : Source) : ⟨.table, n⟩ ∈ (source.addNeeds r).keys ↔
    ⟨.table, n⟩ ∈ r.keys ∨ n ∈ source.tables.map TableUse.qualified := by
  cases source with
  | table => simp [Source.addNeeds, Source.tables, TableUse.qualified]
  | query name q isResult => exact Interface.table_mem_addNeeds q
  | values name columns types isResult =>
    simp only [Source.addNeeds, Source.tables, map_nil, not_mem_nil, or_false]
    exact Requests.table_mem_foldl (f := fun t => t)

theorem Source.table_mem_addNeedsList (sources : List Source) :
    ⟨.table, n⟩ ∈ (Source.addNeedsList sources r).keys ↔
      ⟨.table, n⟩ ∈ r.keys ∨ n ∈ (Source.listTables sources).map TableUse.qualified := by
  cases sources with
  | nil => simp [Source.addNeedsList, Source.listTables]
  | cons source sources =>
    rw [Source.addNeedsList, Source.listTables, map_append, mem_append,
      Source.table_mem_addNeedsList sources, Source.table_mem_addNeeds source, or_assoc]

end

theorem Interface.table_mem_needs {q : Interface} :
    ⟨.table, n⟩ ∈ q.needs.keys ↔ n ∈ q.tableRefs := by
  rw [Interface.needs, q.table_mem_addNeeds]
  simp

end SqlTyping
