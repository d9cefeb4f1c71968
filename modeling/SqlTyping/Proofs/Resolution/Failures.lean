import SqlTyping.Proofs.Outcome
import SqlTyping.Resolution.Type

/-!
# Failures that are not about views

The lookup of a type fails only where composite types nest too deeply (`Store.Nests`). Types,
functions and columns are looked up without reading views. So these lookups never fail for a view
that reads itself, which leaves the views themselves as the only origin of such a failure.
-/

namespace SqlTyping

variable {e : LoadError}

/-! ## Composite types in composite types -/

namespace Store

/-- The name stands for a composite type, and `n` composite types are nested in each other from
there on, the last of them being `last`. -/
inductive Nests (s : Store) : (n : Nat) → (name last : QualifiedName) → Prop where
  | one {name last : QualifiedName} {attributes : List Attribute} (henum : s.enum? name = none)
      (hcomposite : s.composite? name = some (last, attributes)) : Nests s 1 name last
  | attribute {n : Nat} {name found last : QualifiedName} {attributes : List Attribute}
      {a : Attribute} (henum : s.enum? name = none)
      (hcomposite : s.composite? name = some (found, attributes)) (hmem : a ∈ attributes)
      (hnamed : builtinType? a.pgType = none)
      (hinner : Nests s n ⟨(TypeName.read a.pgType).schema, (TypeName.read a.pgType).name⟩ last) :
      Nests s (n + 1) name last

end Store

/-- A spelling has no type only if the type it names has none. -/
theorem typeOfSpelling_eq_error {named : QualifiedName → Except LoadError (Option SqlType)}
    {spelling : String} (h : typeOfSpelling named spelling = .error e) :
    builtinType? spelling = none ∧
      named ⟨(TypeName.read spelling).schema, (TypeName.read spelling).name⟩ = .error e := by
  unfold typeOfSpelling at h
  cases hbuiltin : builtinType? spelling with
  | some t => rw [hbuiltin] at h; cases h
  | none =>
    rw [hbuiltin] at h
    dsimp only at h
    split at h
    · next e' he =>
      cases h
      exact ⟨rfl, he⟩
    · cases h
    · cases h

namespace Store

variable {s : Store}

/-- The failure of a type that is followed `depth` levels down. -/
theorem nests_of_namedTypeWithin {depth : Nat} {name : QualifiedName}
    (h : s.namedTypeWithin depth name = .error e) :
    ∃ last, e.problem = .nestedTooDeep last ∧ s.Nests (depth + 1) name last := by
  induction depth using Nat.strongRecOn generalizing name with
  | ind depth ih =>
  unfold namedTypeWithin at h
  split at h
  · cases h
  · next henum =>
    split at h
    · cases h
    · next hcomposite =>
      cases h
      exact ⟨_, rfl, .one henum hcomposite⟩
    · next depth hcomposite =>
      rcases bind_eq_error h with hfields | ⟨_, -, h⟩
      · obtain ⟨a, hmem, ha⟩ := exists_of_mapM_eq_error hfields
        rcases bind_eq_error ha with htype | ⟨_, -, ha⟩
        · obtain ⟨hnamed, hinner⟩ := typeOfSpelling_eq_error htype
          obtain ⟨last, hproblem, hnests⟩ := ih depth (Nat.lt_succ_self depth) hinner
          exact ⟨last, hproblem, .attribute henum hcomposite hmem hnamed hnests⟩
        · cases ha
      · cases h

/-- The error tells of composite types that are nested too deeply in the store. -/
def TooDeep (s : Store) (e : LoadError) : Prop :=
  ∃ name last, e.problem = .nestedTooDeep last ∧ s.Nests (maxCompositeDepth + 1) name last

theorem TooDeep.code_ne (h : s.TooDeep e) : e.code ≠ .viewCycle := by
  obtain ⟨_, _, hproblem, -⟩ := h
  rw [LoadError.code, hproblem]
  nofun

theorem tooDeep_of_namedType {name : QualifiedName} (h : s.namedType name = .error e) :
    s.TooDeep e := by
  obtain ⟨last, hproblem, hnests⟩ := nests_of_namedTypeWithin h
  exact ⟨name, last, hproblem, hnests⟩

theorem tooDeep_of_typeNamed {spelling : String} (h : s.typeNamed spelling = .error e) :
    s.TooDeep e := tooDeep_of_namedType (typeOfSpelling_eq_error h).2

theorem tooDeep_of_typeColumns {columns : List Column} (h : s.typeColumns columns = .error e) :
    s.TooDeep e := by
  obtain ⟨c, -, hc⟩ := exists_of_mapM_eq_error h
  rcases bind_eq_error hc with htype | ⟨_, -, hc⟩
  · exact tooDeep_of_typeNamed htype
  · cases hc

end Store

/-! ## Views that read themselves -/

/-- The outcome is not the failure of a view that reads itself. -/
def NoViewCycle {α : Type} (o : Except LoadError α) : Prop :=
  ∀ e, o = .error e → e.code ≠ .viewCycle

namespace NoViewCycle

variable {α β : Type}

theorem ok (a : α) : NoViewCycle (.ok a : Except LoadError α) := fun _ h => by cases h

theorem error (h : e.problem.code ≠ .viewCycle) : NoViewCycle (.error e : Except LoadError α) := by
  intro e' he
  cases he
  exact h

theorem bind {o : Except LoadError α} {f : α → Except LoadError β} (ho : NoViewCycle o)
    (hf : ∀ a, NoViewCycle (f a)) : NoViewCycle (o >>= f) := by
  cases o with
  | ok a => exact hf a
  | error e => exact error (ho e rfl)

theorem mapM {f : α → Except LoadError β} (h : ∀ a, NoViewCycle (f a)) (l : List α) :
    NoViewCycle (l.mapM f) := by
  intro e he
  obtain ⟨a, -, ha⟩ := exists_of_mapM_eq_error he
  exact h a e ha

theorem recover {o : Except LoadError SqlType} (h : NoViewCycle o) (mode : ResolveMode) :
    NoViewCycle (recover mode o) := by
  cases o with
  | ok t => exact ok t
  | error e =>
    unfold SqlTyping.recover
    dsimp only
    split
    · exact ok _
    · exact error (h e rfl)

end NoViewCycle

open NoViewCycle (ok error)

namespace Store

variable (s : Store)

theorem namedType_noViewCycle (n : QualifiedName) : NoViewCycle (s.namedType n) :=
  fun _ h => (tooDeep_of_namedType h).code_ne

theorem typeNamed_noViewCycle (spelling : String) : NoViewCycle (s.typeNamed spelling) :=
  fun _ h => (tooDeep_of_typeNamed h).code_ne

theorem typeColumns_noViewCycle (columns : List Column) : NoViewCycle (s.typeColumns columns) :=
  fun _ h => (tooDeep_of_typeColumns h).code_ne

theorem matchFunction_noViewCycle (args : List SqlType) (overloads : List CatalogRecord) :
    NoViewCycle (s.matchFunction args overloads) := by
  induction overloads with
  | nil => exact ok _
  | cons r overloads ih =>
    cases r with
    | function name declared returns isAggregate =>
      rw [matchFunction]
      split
      · exact ih
      · refine NoViewCycle.bind (NoViewCycle.mapM s.typeNamed_noViewCycle declared) fun types => ?_
        dsimp only
        split
        · exact ok _
        · exact ih
    | table | view | enum | composite =>
      rw [matchFunction]
      · exact ih
      · simp

theorem functionType_noViewCycle (n : QualifiedName) (args : List SqlType) (index : Option Nat)
    (span : Span) : NoViewCycle (s.functionType n args index span) := by
  unfold functionType
  split
  · exact error (by simp [LoadProblem.code])
  · refine (s.matchFunction_noViewCycle args _).bind fun found => ?_
    cases found with
    | none => exact error (by simp [LoadProblem.code])
    | some m =>
      cases index with
      | some i => exact ok _
      | none => exact (s.typeNamed_noViewCycle m.returns).bind fun t => ok _

end Store

theorem SqlType.field_noViewCycle (mode : ResolveMode) (t : SqlType) (field : String)
    (span : Span) : NoViewCycle (t.field mode field span) := by
  unfold SqlType.field
  split
  · split
    · exact ok _
    · exact error (by simp [LoadProblem.code])
  · exact ok _
  · exact error (by simp [LoadProblem.code])

/-! ## Columns -/

namespace Level

theorem lookupFrom_noViewCycle (schema table : Option String) (column : String) (span : Span)
    (levels : List Level) (position : ColumnPosition) (seen : List String) :
    NoViewCycle (lookupFrom schema table column span levels position seen) := by
  induction levels generalizing position seen with
  | nil => exact error (by simp [LoadProblem.code])
  | cons level outer ih =>
    rw [lookupFrom]
    split
    · exact ok _
    · exact ih _ _
    · exact error (by simp [LoadProblem.code])

theorem star_noViewCycle (level : Level) (mode : ResolveMode) (schema table : Option String)
    (span : Span) : NoViewCycle (level.star mode schema table span) := by
  unfold star
  split
  · exact ok _
  · split
    · exact error (by simp [LoadProblem.code])
    · exact ok _

end Level

end SqlTyping
