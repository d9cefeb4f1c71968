import SqlTyping.Catalog.Load
import SqlTyping.Proofs.Types.Parts

/-!
# Keys of requests

What is in a request after names have been added to it, and that the walks over types and interfaces
only add (`Requests.All.of_sources`). A property that every single addition keeps (`Requests.Lasting`,
`Requests.Permanent`) is kept by a whole walk.
-/

namespace SqlTyping

variable {key : RecordKey} {n : QualifiedName}

namespace Requests

variable {r : Requests} {text : String}

/-- The names of one kind that are asked for. -/
def names (r : Requests) : RecordKind → List QualifiedName
  | .table => r.tables
  | .function => r.functions
  | .enum => r.enums
  | .composite => r.composites

theorem mem_keys : key ∈ r.keys ↔ key.name ∈ r.names key.kind := by
  obtain ⟨kind, name⟩ := key
  cases kind <;> simp [keys, names]

theorem isEmpty_iff : r.isEmpty = true ↔ ∀ key, key ∉ r.keys := by
  constructor
  · intro h key
    simp only [isEmpty, Bool.and_eq_true, List.isEmpty_iff] at h
    obtain ⟨⟨⟨h1, h2⟩, h3⟩, h4⟩ := h
    simp [keys, h1, h2, h3, h4]
  · intro h
    have hnil (kind : RecordKind) : r.names kind = [] :=
      List.eq_nil_iff_forall_not_mem.2 fun n hn => h ⟨kind, n⟩ (mem_keys.2 hn)
    have h1 := hnil .table
    have h2 := hnil .function
    have h3 := hnil .enum
    have h4 := hnil .composite
    simp_all [isEmpty, names]

theorem mem_addName {names : List QualifiedName} {name : QualifiedName} :
    n ∈ addName names name ↔ n ∈ names ∨ n = name := by
  unfold addName
  split
  · next h =>
    have hm : name ∈ names := by simpa using h
    constructor
    · exact .inl
    · rintro (h | rfl)
      · exact h
      · exact hm
  · simp

theorem mem_foldl_addName {names more : List QualifiedName} :
    n ∈ more.foldl addName names ↔ n ∈ names ∨ n ∈ more := by
  induction more generalizing names with
  | nil => simp
  | cons m more ih => simp [ih, mem_addName, or_assoc]

@[simp] theorem mem_keys_empty (key : RecordKey) : key ∉ ({} : Requests).keys := by
  simp [keys]

@[simp] theorem mem_keys_addTable :
    key ∈ (r.addTable n).keys ↔ key ∈ r.keys ∨ key = ⟨.table, n⟩ := by
  obtain ⟨kind, name⟩ := key
  cases kind <;> simp [mem_keys, names, addTable, mem_addName]

@[simp] theorem mem_keys_addFunction :
    key ∈ (r.addFunction n).keys ↔ key ∈ r.keys ∨ key = ⟨.function, n⟩ := by
  obtain ⟨kind, name⟩ := key
  cases kind <;> simp [mem_keys, names, addFunction, mem_addName]

@[simp] theorem mem_keys_addType :
    key ∈ (r.addType n).keys ↔ key ∈ r.keys ∨ key = ⟨.enum, n⟩ ∨ key = ⟨.composite, n⟩ := by
  obtain ⟨kind, name⟩ := key
  cases kind <;> simp [mem_keys, names, addType, mem_addName]

@[simp] theorem mem_keys_append {s : Requests} :
    key ∈ (r ++ s).keys ↔ key ∈ r.keys ∨ key ∈ s.keys := by
  obtain ⟨kind, name⟩ := key
  rw [mem_keys, mem_keys, mem_keys]
  cases kind <;> exact mem_foldl_addName

@[simp] theorem mem_keys_filter {keep : RecordKey → Bool} :
    key ∈ (r.filter keep).keys ↔ key ∈ r.keys ∧ keep key = true := by
  obtain ⟨kind, name⟩ := key
  cases kind <;> simp [mem_keys, names, filter]

/-- A property of requests that adding a function or a type does not end. -/
structure Lasting (Q : Requests → Prop) : Prop where
  function : ∀ {r}, Q r → ∀ n, Q (r.addFunction n)
  type : ∀ {r}, Q r → ∀ n, Q (r.addType n)

/-- Adding a table does not end it either. -/
structure Permanent (Q : Requests → Prop) : Prop extends Lasting Q where
  table : ∀ {r}, Q r → ∀ n, Q (r.addTable n)

theorem permanent_mem_keys (key : RecordKey) : Permanent (key ∈ ·.keys) where
  function h _ := mem_keys_addFunction.2 (.inl h)
  type h _ := mem_keys_addType.2 (.inl h)
  table h _ := mem_keys_addTable.2 (.inl h)

end Requests

/-! ## The walks -/

theorem TypeExpr.addNeeds_preserves (hQ : Requests.Lasting Q) (t : TypeExpr) (h : Q r) :
    Q (t.addNeeds r) := by
  induction t using induction_parts generalizing r with
  | step t ih =>
    rw [addNeeds_eq_foldl]
    refine List.foldlRecOn t.parts _ ?_ fun _ h u hu => ih u hu h
    cases t with
    | record | named => exact hQ.type h _
    | function | functionArgument => exact hQ.function h _
    | _ => exact h

mutual

theorem Interface.addNeeds_preserves (hQ : Requests.Permanent Q) (q : Interface) (h : Q r) :
    Q (q.addNeeds r) := by
  obtain ⟨sources, params, results, nullable⟩ := q
  simp only [Interface.addNeeds]
  have hsources := Source.addNeedsList_preserves hQ sources h
  have hparams := List.foldlRecOn params _ hsources fun _ h p _ =>
    p.type.addNeeds_preserves hQ.toLasting h
  exact List.foldlRecOn results _ hparams fun _ h column _ =>
    column.type.addNeeds_preserves hQ.toLasting h

theorem Source.addNeeds_preserves (hQ : Requests.Permanent Q) (source : Source) (h : Q r) :
    Q (source.addNeeds r) := by
  cases source with
  | table => exact hQ.table h _
  | query _ q => exact Interface.addNeeds_preserves hQ q h
  | values _ _ types =>
    exact List.foldlRecOn types _ h fun _ h t _ => t.addNeeds_preserves hQ.toLasting h

theorem Source.addNeedsList_preserves (hQ : Requests.Permanent Q) (sources : List Source)
    (h : Q r) : Q (Source.addNeedsList sources r) := by
  cases sources with
  | nil => exact h
  | cons source sources =>
    exact Source.addNeedsList_preserves hQ sources (Source.addNeeds_preserves hQ source h)

end

/-! ## What is asked for stays -/

namespace Requests

/-- Do all keys have the property? -/
def All (P : RecordKey → Prop) (r : Requests) : Prop := ∀ key ∈ r.keys, P key

section

variable {P : RecordKey → Prop} {r : Requests}

theorem All.of_foldl {α : Type} {f : α → TypeExpr} {items : List α}
    (h : (items.foldl (fun r a => (f a).addNeeds r) r).All P) : r.All P := fun key hk =>
  h key (List.foldlRecOn (motive := fun r : Requests => key ∈ r.keys) items _ hk
    fun _ hk a _ => (f a).addNeeds_preserves (permanent_mem_keys key).toLasting hk)

theorem All.of_sources {sources : List Source} (h : (Source.addNeedsList sources r).All P) :
    r.All P := fun key hk =>
  h key (Source.addNeedsList_preserves (permanent_mem_keys key) sources hk)

end

end Requests

/-! ## Records -/

theorem CatalogRecord.needs_view {statement : Statement} (h : parse text = .ok statement)
    (name : QualifiedName) (columns : List Column) :
    (CatalogRecord.view name text columns).needs =
      columns.foldl (fun r c => r.addTypeName c.pgType) {} ++ (statement.interface []).needs := by
  unfold CatalogRecord.needs
  dsimp only
  rw [h]

theorem CatalogRecord.needs_view_of_error {e : SyntaxError} (h : parse text = .error e)
    (name : QualifiedName) (columns : List Column) :
    (CatalogRecord.view name text columns).needs =
      columns.foldl (fun r c => r.addTypeName c.pgType) {} := by
  unfold CatalogRecord.needs
  dsimp only
  rw [h]

theorem mem_keys_needsOf {records : List CatalogRecord} :
    key ∈ (needsOf records).keys ↔ ∃ record ∈ records, key ∈ record.needs.keys := by
  have h (r : Requests) : key ∈ (records.foldl (fun r record => r ++ record.needs) r).keys ↔
        key ∈ r.keys ∨ ∃ record ∈ records, key ∈ record.needs.keys := by
    induction records generalizing r with
    | nil => simp
    | cons record records ih => simp [ih, or_assoc]
  simpa [needsOf] using h {}

end SqlTyping
