import SqlTyping.Proofs.Resolution.Cycles

/-!
# What lenient resolution recovers

In lenient mode a lookup that finds nothing is recovered where it is made, also in the query of a
view. One failure that counts as not found is not recovered: a composite type whose attributes are
composites in turn, more levels down than are followed. It comes from the columns of a table, from a
cast and from the catalog columns of a view, and it means that the store has a chain of such types
(`Store.Nests`). No other one is left (`Interface.resolve_lenient_notFound`).
-/

namespace SqlTyping

variable {e : LoadError}

/-- What counts as not found is recovered, unless types are nested too deeply. -/
def Comparison.recovers (store : Store) : Comparison :=
  .failing (fun e => e.isNotFound = true → store.TooDeep e) fun _ _ h => h

/-! ## Where lookups are made -/

theorem recover_lenient_eq_error {o : Except LoadError SqlType} (h : recover .lenient o = .error e) :
    e.isNotFound = false := by
  cases o with
  | ok t => cases h
  | error e' =>
    unfold recover at h
    dsimp only at h
    split at h
    · cases h
    · next hkept =>
      cases h
      simpa using hkept

theorem SqlType.field_eq_error {mode : ResolveMode} {t : SqlType} {field : String} {span : Span}
    (h : t.field mode field span = .error e) : e.isNotFound = false := by
  unfold SqlType.field at h
  split at h
  · split at h
    · cases h
    · cases h
      rfl
  · cases h
  · cases h
    rfl

theorem Level.star_lenient_ne_error {level : Level} {schema table : Option String} {span : Span} :
    level.star .lenient schema table span ≠ .error e := by
  unfold Level.star
  cases table with
  | none => simp
  | some table => cases level.filter (·.isMeant schema table) <;> simp

/-- In lenient mode each lookup recovers, if the views that are read do. -/
theorem contexts_recovers {store : Store} {views : ViewReader}
    (h : ∀ name text columns, (Comparison.recovers store).act (views name text columns)
      (views name text columns)) :
    (Comparison.recovers store).Contexts (fun _ => True) ⟨store, .lenient, views⟩
      ⟨store, .lenient, views⟩ where
  push _ hS := by rw [hS]
  types _ hS := by
    subst hS
    exact {
      column := fun _ _ _ _ _ e he hfound =>
        absurd hfound (Bool.eq_false_iff.1 (recover_lenient_eq_error he))
      named := fun _ _ _ e he _ => Store.tooDeep_of_namedType he
      unknown := fun _ _ e he => by cases he
      function := fun _ _ _ _ _ e he hfound =>
        absurd hfound (Bool.eq_false_iff.1 (recover_lenient_eq_error he))
      field := fun _ _ _ e he hfound =>
        absurd hfound (Bool.eq_false_iff.1 (SqlType.field_eq_error he)) }
  star _ _ _ _ e he := absurd he Level.star_lenient_ne_error
  table schema name asName isResult span _ := Comparison.table_related asName isResult span rfl
      (fun _ _ _ e he _ => Store.tooDeep_of_typeColumns he)
      (fun found text columns _ => h found text columns) (Comparison.pure_act _ _)

/-- Views recover too: their queries are resolved in the same mode, and so are the columns that take
their place. -/
theorem readView_recovers (store : Store) (depth : Nat) (opened : List QualifiedName)
    (name : QualifiedName) (text : String) (columns : List Column) :
    (Comparison.recovers store).act (readView store .lenient depth opened name text columns)
      (readView store .lenient depth opened name text columns) := by
  induction depth generalizing opened name text columns with
  | zero =>
    intro views e he hfound
    cases he
    cases hfound
  | succ depth ih =>
    intro views e he hfound
    rw [readView] at he
    rcases viewColumns_eq_error he with ⟨-, hcode⟩ | ⟨-, statement, -, hquery⟩ | hcode | htypes
    · simp [LoadError.isNotFound, hcode] at hfound
    · exact Interface.resolveIn_related (contexts_recovers (ih (opened ++ [name])))
        (statement.interface []) [] (r := {}) (fun _ _ => trivial) views e hquery hfound
    · simp [LoadError.isNotFound, hcode] at hfound
    · exact Store.tooDeep_of_typeColumns htypes

/-! ## Interfaces -/

/-- Lenient resolution recovers every lookup that finds nothing. What is left of the failures that
count as not found are composite types that nest too deeply in the store. -/
theorem Interface.resolve_lenient_notFound (store : Store) (q : Interface) {e : LoadError}
    (h : q.resolve store .lenient = .error e) :
    e.isNotFound = false ∨ ∃ name last, e.problem = .nestedTooDeep last ∧
      store.Nests (maxCompositeDepth + 1) name last := by
  have hrelated := Interface.resolveIn_related
    (contexts_recovers (readView_recovers store (store.records.length + 1) [])) q []
    (r := {}) fun _ _ => trivial
  cases hfound : e.isNotFound with
  | false => exact .inl rfl
  | true => exact .inr (hrelated [] e h hfound)

/-- A type with an attribute of its own type, and a table with a column of it. -/
def endlessType : Store := .ofRecords [
  .composite ⟨some "public", "node"⟩ [⟨"next", "node", true⟩],
  .table ⟨some "public", "lists"⟩ [⟨"head", false, "node", none⟩]]

/-- `SELECT head FROM lists` -/
def listHeads : Interface where
  sources := [.table none "lists" none true ⟨17, 22⟩]
  params := []
  results := [⟨"head", .column none none "head" ⟨7, 11⟩, ⟨7, 11⟩⟩]
  nullableSources := []

theorem resolve_lenient_notFound_listHeads :
    ∃ e, listHeads.resolve endlessType .lenient = .error e ∧ e.isNotFound = true ∧
      ∃ name last, e.problem = .nestedTooDeep last ∧
        endlessType.Nests (maxCompositeDepth + 1) name last := by
  have herror : (match listHeads.resolve endlessType .lenient with
      | .error e => e.isNotFound
      | .ok _ => false) = true := by decide +kernel
  cases h : listHeads.resolve endlessType .lenient with
  | ok typed => rw [h] at herror; cases herror
  | error e =>
    rw [h] at herror
    have hdeep := (listHeads.resolve_lenient_notFound endlessType h).resolve_left
      (Bool.eq_false_iff.not_left.2 herror)
    exact ⟨e, rfl, herror, hdeep⟩

end SqlTyping
