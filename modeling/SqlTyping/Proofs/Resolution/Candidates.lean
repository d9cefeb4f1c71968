import SqlTyping.Proofs.Resolution.Lookups

/-!
# Candidates of a column reference

A reference is decided in the innermost level with a candidate. What counts there is how many
sources have candidates, not how many candidates there are: a source in which several columns have
the name stands for the first of them (`Level.lookup_iff_holders`).
-/

namespace SqlTyping

open List

variable {level : Level}

/-- All columns with the name. -/
def TypedSource.columnsNamed (s : TypedSource) (name : String) : List (Field SqlType) :=
  s.columns.filter fun c => Text.eqFold c.name name

theorem TypedSource.head?_columnsNamed (s : TypedSource) (name : String) :
    (s.columnsNamed name).head? = s.column? name :=
  head?_filter

namespace Level

variable {ref : ColumnRef} {position : ColumnPosition}

def columnsNamed (level : Level) (name : String) : List (Field SqlType) :=
  level.flatMap (·.columnsNamed name)

/-- The sources that a reference may mean. -/
def eligible (level : Level) (ref : ColumnRef) (position : ColumnPosition) : Level :=
  match ref.table with
  | some table => level.filter (·.isMeant ref.schema table)
  | none =>
    if columnsNamed (level.filter (·.isResult)) ref.column = [] ∧ position = .other then
      level.filter (!·.isResult)
    else level.filter (·.isResult)

def candidates (level : Level) (ref : ColumnRef) (position : ColumnPosition) :
    List (Field SqlType) :=
  columnsNamed (level.eligible ref position) ref.column

/-- The sources with a candidate. -/
def holders (level : Level) (ref : ColumnRef) (position : ColumnPosition) : Level :=
  (level.eligible ref position).filter fun s => s.columnsNamed ref.column ≠ []

/-- The levels in which a reference is looked up, from the inside out, and where it stands. -/
def searched (levels : List Level) (position : ColumnPosition) : List (Level × ColumnPosition) :=
  match levels with
  | [] => []
  | level :: outer => (level, position) :: outer.map (·, .other)

/-- The innermost level with a candidate. -/
def deciding? (levels : List Level) (ref : ColumnRef) (position : ColumnPosition) :
    Option (Level × ColumnPosition) :=
  (searched levels position).find? fun (level, position) => level.candidates ref position ≠ []

/-! ## What a level has to offer -/

theorem having_eq (level : Level) (column : String) :
    having level column = level.filterMap fun s => (s.columnsNamed column).head?.map (s, ·) := by
  simp only [having, TypedSource.head?_columnsNamed]

theorem having_eq_nil_iff {column : String} :
    having level column = [] ↔ level.columnsNamed column = [] := by
  simp only [having_eq, columnsNamed, filterMap_eq_nil_iff, flatMap_eq_nil_iff,
    Option.map_eq_none_iff, head?_eq_none_iff]

theorem hits_eq_having (level : Level) (ref : ColumnRef) (position : ColumnPosition) :
    level.hits ref.schema ref.table ref.column position =
      having (level.eligible ref position) ref.column := by
  unfold hits eligible
  cases ref.table with
  | some table => rfl
  | none =>
    dsimp only
    split
    · next hnone => rw [if_pos ⟨having_eq_nil_iff.1 hnone, rfl⟩]
    · next hother =>
      rw [if_neg]
      rintro ⟨hnone, rfl⟩
      exact hother (having_eq_nil_iff.2 hnone) rfl

theorem hits_eq_nil_iff : level.hits ref.schema ref.table ref.column position = [] ↔
      level.candidates ref position = [] := by
  rw [hits_eq_having, having_eq_nil_iff, candidates]

theorem map_fst_hits (level : Level) (ref : ColumnRef) (position : ColumnPosition) :
    (level.hits ref.schema ref.table ref.column position).map (·.1) =
      level.holders ref position := by
  rw [hits_eq_having, map_fst_having, holders]
  refine filter_congr fun s _ => ?_
  rw [← TypedSource.head?_columnsNamed]
  cases s.columnsNamed ref.column <;> rfl

/-- Where no source has the name twice, its sources are as many as the candidates. -/
theorem length_holders (h : ∀ s ∈ level, (s.columnsNamed ref.column).length ≤ 1) :
    (level.holders ref position).length = (level.candidates ref position).length := by
  have hsub : ∀ s ∈ level.eligible ref position, s ∈ level := by
    unfold eligible
    intro s hs
    split at hs
    · exact mem_of_mem_filter hs
    · split at hs
      · exact mem_of_mem_filter hs
      · exact mem_of_mem_filter hs
  unfold holders candidates columnsNamed
  generalize level.eligible ref position = sources at hsub
  induction sources with
  | nil => rfl
  | cons s rest ih =>
    have hs := h s (hsub s (.head _))
    have ih := ih fun s hs => hsub s (.tail _ hs)
    rw [filter_cons, flatMap_cons, length_append, ← ih]
    cases hc : s.columnsNamed ref.column with
    | nil => simp
    | cons c more =>
      obtain rfl : more = [] := by
        rw [hc] at hs
        exact length_eq_zero_iff.1 (Nat.le_zero.1 (Nat.le_of_succ_le_succ hs))
      simp only [ne_eq, reduceCtorEq, not_false_eq_true, decide_true, if_true, length_cons,
        length_nil]
      omega

/-! ## Lookups -/

theorem deciding?_cons (outer : List Level) (h : level.candidates ref position = []) :
    deciding? (level :: outer) ref position = deciding? outer ref .other := by
  unfold deciding? searched
  cases outer with
  | nil => simp [h]
  | cons next outer => simp [h]

theorem lookupFrom_cases (ref : ColumnRef) (span : Span) (levels : List Level)
    (position : ColumnPosition) (seen : List String) :
    (∃ level place s c, deciding? levels ref position = some (level, place) ∧
      level.holders ref place = [s] ∧ (s.columnsNamed ref.column).head? = some c ∧
      lookupFrom ref.schema ref.table ref.column span levels position seen = .ok c.value) ∨
    (∃ level place, deciding? levels ref position = some (level, place) ∧
      2 ≤ (level.holders ref place).length ∧
      lookupFrom ref.schema ref.table ref.column span levels position seen =
        .error ⟨.ambiguousColumn (reference ref.table ref.column)
          ((level.holders ref place).map (·.name)), some span⟩) ∨
    (deciding? levels ref position = none ∧ ∃ names,
      lookupFrom ref.schema ref.table ref.column span levels position seen =
        .error ⟨.columnNotFound (reference ref.table ref.column) names, some span⟩) := by
  induction levels generalizing position seen with
  | nil => exact .inr (.inr ⟨rfl, seen, rfl⟩)
  | cons level outer ih =>
    have hholders := map_fst_hits level ref position
    rw [lookupFrom]
    cases hhits : level.hits ref.schema ref.table ref.column position with
    | nil =>
      rw [deciding?_cons outer (hits_eq_nil_iff.1 hhits)]
      exact ih .other _
    | cons first rest =>
      have hsome : level.candidates ref position ≠ [] := fun hnone => by
        rw [hits_eq_nil_iff.2 hnone] at hhits
        cases hhits
      have hdeciding : deciding? (level :: outer) ref position = some (level, position) := by
        simp [deciding?, searched, hsome]
      rw [hhits] at hholders
      cases rest with
      | nil =>
        have hfirst := (mem_hits (hhits ▸ mem_singleton_self first)).2
        rw [← TypedSource.head?_columnsNamed] at hfirst
        exact .inl ⟨level, position, first.1, first.2, hdeciding, hholders.symm, hfirst, rfl⟩
      | cons second rest =>
        refine .inr (.inl ⟨level, position, hdeciding, ?_, ?_⟩)
        · simp [← hholders]
        · rw [← hholders, map_map]
          rfl

/-- A reference has the type of the first candidate of the only source with candidates in the
innermost level that has any. It is ambiguous if two sources there have candidates, and not found if
there is no such level. So candidates in one source are never ambiguous, and where no source has the
name twice the number of candidates decides. -/
theorem lookup_iff_holders (levels : List Level) (ref : ColumnRef) (span : Span)
    (position : ColumnPosition) :
    (∀ t, lookup levels ref.schema ref.table ref.column span position = .ok t ↔
      ∃ level place s, deciding? levels ref position = some (level, place) ∧
        level.holders ref place = [s] ∧ (s.columnsNamed ref.column).head?.map (·.value) = some t) ∧
    (∀ names, lookup levels ref.schema ref.table ref.column span position =
        .error ⟨.ambiguousColumn (reference ref.table ref.column) names, some span⟩ ↔
      ∃ level place, deciding? levels ref position = some (level, place) ∧
        2 ≤ (level.holders ref place).length ∧ names = (level.holders ref place).map (·.name)) ∧
    ((∃ names, lookup levels ref.schema ref.table ref.column span position =
        .error ⟨.columnNotFound (reference ref.table ref.column) names, some span⟩) ↔
      ∀ place ∈ searched levels position, place.1.candidates ref place.2 = []) ∧
    (∀ level place, deciding? levels ref position = some (level, place) →
      (∀ s ∈ level, (s.columnsNamed ref.column).length ≤ 1) →
      (level.holders ref place).length = (level.candidates ref place).length) := by
  have hnone : deciding? levels ref position = none ↔
      ∀ place ∈ searched levels position, place.1.candidates ref place.2 = [] := by
    simp [deciding?]
  rw [← hnone]
  unfold lookup
  rcases lookupFrom_cases ref span levels position [] with
    ⟨level, place, s, c, hdeciding, hone, hfirst, hrun⟩ | ⟨level, place, hdeciding, hlen, hrun⟩ |
    ⟨hdeciding, names, hrun⟩
  · refine ⟨fun t => ?_, fun names => ?_, ?_, fun _ _ _ hone => length_holders hone⟩
    · simp [hrun, hdeciding, hone, hfirst]
    · simp [hrun, hdeciding, hone]
    · simp [hrun, hdeciding]
  · refine ⟨fun t => ?_, fun names => ?_, ?_, fun _ _ _ hone => length_holders hone⟩
    · simp only [hrun, hdeciding, reduceCtorEq, false_iff]
      rintro ⟨_, _, s, ⟨⟩, hone, -⟩
      rw [hone] at hlen
      exact absurd hlen (by simp)
    · simp [hrun, hdeciding, hlen, eq_comm]
    · simp [hrun, hdeciding]
  · refine ⟨fun t => ?_, fun names => ?_, ?_, fun _ _ _ hone => length_holders hone⟩
    · simp [hrun, hdeciding]
    · simp [hrun, hdeciding]
    · simp [hrun, hdeciding]

end Level

end SqlTyping
