import SqlTyping.Proofs.Resolution.Views

/-!
# Strict and lenient resolution

The mode matters only where something is missing: a table, a column, a type or function, the source
of a star, a field of what is not known, or a view whose text is no statement. There strict
resolution fails. So where it does not fail, lenient resolution does the same, in a view as in the
query that reads it (`Settles.lenient`), and it ends with the same interface
(`Interface.resolve_lenient`).
-/

namespace SqlTyping

variable {t : SqlType} {span : Span} {α : Type} {store : Store} {name : QualifiedName}

/-! ## Where the mode matters -/

theorem recover_strict (o : Except LoadError SqlType) : recover .strict o = o := by
  cases o <;> rfl

theorem recover_lenient {o : Except LoadError SqlType} (h : recover .strict o = .ok t) :
    recover .lenient o = .ok t := by
  rw [recover_strict] at h
  rw [h]
  rfl

theorem SqlType.field_lenient {found : SqlType} {field : String}
    (h : t.field .strict field span = .ok found) : t.field .lenient field span = .ok found := by
  unfold SqlType.field at h ⊢
  cases hkind : t.kind with
  | composite name attributes => rw [hkind] at h; exact h
  | _ => rw [hkind] at h; cases h

theorem Level.star_lenient {level : Level} {schema table : Option String}
    {columns : List (Field SqlType)} (h : level.star .strict schema table span = .ok columns) :
    level.star .lenient schema table span = .ok columns := by
  unfold Level.star at h ⊢
  cases table with
  | none => exact h
  | some table =>
    dsimp only at h ⊢
    cases hm : level.filter (·.isMeant schema table) with
    | nil => rw [hm] at h; cases h
    | cons source rest => rw [hm] at h; exact h

namespace Comparison

variable {I J : ViewColumns → Prop}

/-- What is kept is a success. -/
theorem known_of_ok {o o' : Except LoadError α} (h : ∀ a, o = .ok a → o' = .ok a) :
    (known True I J).outcome o o' := by
  cases o with
  | ok a => exact .inl (h a rfl).symm
  | error e => exact .inr ⟨trivial, e, rfl⟩

theorem known_fails (e : LoadError) (a : α) : (known True I J).act (throw e : Resolve α) (pure a) :=
  fun _ _ hI _ => ⟨hI, .inr ⟨trivial, e, rfl⟩⟩

/-- Strict and lenient contexts are related if they read views alike. -/
theorem contexts_lenient {views views' : ViewReader}
    (h : ∀ n name text columns, store.table? n = some (.view name text columns) →
      (known True I J).act (views name text columns) (views' name text columns)) :
    (known True I J).Contexts (fun _ => True) ⟨store, .strict, views⟩
      ⟨store, .lenient, views'⟩ where
  push _ hS := by rw [hS]
  types _ hS := by
    subst hS
    exact {
      column := fun _ _ _ _ _ => known_of_ok fun _ => recover_lenient
      named := fun _ _ _ => known_of_ok fun _ => id
      unknown := fun _ _ => known_of_ok fun _ => recover_lenient
      function := fun _ _ _ _ _ => known_of_ok fun _ => recover_lenient
      field := fun _ _ _ => known_of_ok fun _ => SqlType.field_lenient }
  star _ _ _ _ := known_of_ok fun _ => Level.star_lenient
  table schema name asName isResult span _ :=
    table_related asName isResult span rfl (fun _ _ _ => known_of_ok fun _ => id)
      (fun found text columns hf => h _ found text columns hf) (known_fails _ _)

end Comparison

/-! ## Views -/

/-- A view that is typed in strict mode has the same columns in lenient mode. -/
theorem Settles.lenient {c : List (Field SqlType)} (h : Settles store .strict name c) :
    Settles store .lenient name c := by
  induction h with
  | @query name text columns statement f typed hview hparse _ htyped ih =>
    have hrelated : (Comparison.known True (· = []) (· = [])).act
        ((statement.interface []).resolveIn ⟨store, .strict, readFrom f⟩ [])
        ((statement.interface []).resolveIn ⟨store, .lenient, readFrom f⟩ []) :=
      Interface.resolveIn_related
        (Comparison.contexts_lenient fun _ inner _ _ _ => Comparison.pure_act _ (f inner))
        _ [] (r := {}) fun _ _ => trivial
    exact .query hview hparse ih (Comparison.known_run_ok hrelated rfl rfl htyped)
  | catalog _ _ hmode => cases hmode

/-- A view that is read in strict mode is read alike in lenient mode. -/
theorem readView_lenient {text : String} {columns : List Column}
    (hview : store.IsView name text columns) :
    (Comparison.known True (SettledViews store .strict) (SettledViews store .lenient)).act
      (readView store .strict (store.records.length + 1) [] name text columns)
      (readView store .lenient (store.records.length + 1) [] name text columns) := by
  intro views known hv hk
  obtain ⟨hstrict, hsettles⟩ := hview.independent.readsSettled views hv
  refine ⟨hstrict, ?_⟩
  cases ho : ((readView store .strict (store.records.length + 1) [] name text columns).run.run
      views).1 with
  | error e => exact .inr ⟨trivial, e, rfl⟩
  | ok c =>
    have hread := (hsettles c ho).lenient.readView_eq (ample_nil store)
      (fun n hm => by cases hm) hview hk
    exact .inl ⟨hread.1.symm, hread.2⟩

/-! ## Interfaces -/

/-- Lenient resolution extends strict resolution: what can be typed in strict mode is typed the same
in lenient mode. -/
theorem Interface.resolve_lenient (store : Store) (q : Interface) {typed : TypedInterface}
    (h : q.resolve store .strict = .ok typed) : q.resolve store .lenient = .ok typed := by
  have hrelated : (Comparison.known True (SettledViews store .strict)
      (SettledViews store .lenient)).act (q.resolveIn (.ofStore store .strict) [])
      (q.resolveIn (.ofStore store .lenient) []) :=
    Interface.resolveIn_related
      (Comparison.contexts_lenient fun n _ _ _ hf => readView_lenient ⟨n, hf⟩)
      q [] (r := {}) fun _ _ => trivial
  exact Comparison.known_run_ok hrelated settledViews_nil settledViews_nil h

/-- Orders, a view of their notes, and a view of that view. -/
def orderViews : Store := .ofRecords [
  .table ⟨some "public", "orders"⟩ [⟨"id", false, "int4", none⟩, ⟨"note", true, "text", none⟩],
  .view ⟨some "public", "notes"⟩ "SELECT id, note FROM orders" [],
  .view ⟨some "public", "recent"⟩ "SELECT n.id, note FROM notes n" []]

/-- `SELECT r.id, note FROM recent r WHERE r.id = $id` -/
def recentNotes : Interface where
  sources := [.table none "recent" (some "r") true ⟨22, 30⟩]
  params := [⟨"id", .column none (some "r") "id" ⟨37, 41⟩, [⟨44, 47⟩], false, false, []⟩]
  results := [⟨"id", .column none (some "r") "id" ⟨7, 11⟩, ⟨7, 11⟩⟩,
    ⟨"note", .column none none "note" ⟨13, 17⟩, ⟨13, 17⟩⟩]
  nullableSources := []

theorem recentNotes_resolve : (recentNotes.resolve orderViews .strict).isOk = true := by
  decide +kernel

theorem resolve_lenient_recentNotes : ∃ typed, recentNotes.resolve orderViews .strict = .ok typed ∧
    recentNotes.resolve orderViews .lenient = .ok typed := by
  obtain ⟨typed, h⟩ := exists_of_isOk recentNotes_resolve
  exact ⟨typed, h, Interface.resolve_lenient orderViews recentNotes h⟩

end SqlTyping
