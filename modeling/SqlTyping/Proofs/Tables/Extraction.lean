import SqlTyping.Proofs.Extraction.Traversal
import SqlTyping.Proofs.Resolution.References

/-!
# Tables that a statement uses

An interface has no table for a name in `FROM` that stands for a query of a `WITH` clause, and it
asks the catalog for its own tables only.
-/

namespace SqlTyping

open List

variable {use : TableUse} {q : Interface} {L : Limits}

theorem Source.mem_listTables {sources : List Source} :
    use ∈ listTables sources ↔ ∃ source ∈ sources, use ∈ source.tables := by
  induction sources with
  | nil => simp [listTables]
  | cons source rest ih => simp [listTables, ih]

theorem Interface.mem_tables : use ∈ q.tables ↔ ∃ source ∈ q.sources, use ∈ source.tables := by
  cases q
  exact Source.mem_listTables

theorem Source.Within.tables {source : Source} (h : source.Within L) :
    ∀ use ∈ source.tables, L.table use := by
  induction h with
  | table h => exact forall_mem_singleton.2 h
  | query _ _ _ ih =>
    intro use huse
    obtain ⟨source, hsource, huse⟩ := Interface.mem_tables.1 huse
    exact ih source hsource use huse
  | values => exact forall_mem_nil _

theorem Interface.Within.tables (h : q.Within L) : ∀ use ∈ q.tables, L.table use := by
  intro use huse
  obtain ⟨source, hsource, huse⟩ := Interface.mem_tables.1 huse
  exact (h.sources source hsource).tables use huse

/-! ## Requests -/

/-- Each table in the interface of a statement, and each table that it asks for, is a name of the
tree that stands for no query of a `WITH` clause. -/
theorem Statement.unhidden_of_tables (statement : Statement) :
    (∀ use ∈ (statement.interface []).tables,
      ∃ m ∈ statement.tables, m.hidden = false ∧ m.use = use) ∧
    ∀ name ∈ (statement.interface []).needs.tables,
      ∃ m ∈ statement.tables, m.hidden = false ∧ m.use.qualified = name := by
  let T (use : TableUse) : Prop := ∃ m ∈ statement.tables, m.hidden = false ∧ m.use = use
  have hallowed : Allowed (.tables T) statement.tables statement.calls :=
    ⟨fun m hm hh => ⟨m, hm, hh, rfl⟩, fun _ _ _ => trivial⟩
  have hinside : (statement.interface []).Within (.tables T) :=
    statement.within_interface hallowed (forall_mem_nil _)
  have hwithin : ∀ use ∈ (statement.interface []).tables, T use := hinside.tables
  refine ⟨hwithin, fun name hname => ?_⟩
  have href := Interface.table_mem_needs.1 (Requests.mem_keys.2 hname)
  obtain ⟨use, huse, rfl⟩ := mem_map.1 href
  obtain ⟨m, hm, hh, rfl⟩ := hwithin use huse
  exact ⟨m, hm, hh, rfl⟩

end SqlTyping
