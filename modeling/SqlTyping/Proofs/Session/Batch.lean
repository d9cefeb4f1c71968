import SqlTyping.Proofs.Resolution.Views
import SqlTyping.Session

/-!
# Batches

A batch types its statements one after the other, and views that one statement has typed are known to
those after it. Nothing of that shows: each statement is typed as if it were alone
(`resolveEach_eq_map`), and the report counts what has failed. The counts of a report are kept while
statements are added to it, and are those of its statements at any time (`Report.addAll_eq`).
-/

namespace SqlTyping

open List

/-- Types an extracted interface alone. -/
def typeAlone (store : Store) (mode : ResolveMode) :
    Except SessionError Interface → Except SessionError TypedInterface
  | .error e => .error e
  | .ok q => (q.resolve store mode).mapError .load

theorem resolveEach_eq_map {store : Store} {mode : ResolveMode} {views : ViewColumns}
    (hv : SettledViews store mode views) (queries : List (Except SessionError Interface)) :
    resolveEach store mode views queries = queries.map (typeAlone store mode) := by
  induction queries generalizing views with
  | nil => rfl
  | cons query queries ih =>
    cases query with
    | error e => rw [resolveEach, ih hv]; rfl
    | ok q =>
      obtain ⟨halone, hafter⟩ := q.resolveWith_independent hv
      rw [resolveEach]
      show (q.resolveWith store mode views).1.mapError .load ::
        resolveEach store mode (q.resolveWith store mode views).2 queries = _
      rw [halone, ih hafter]
      rfl

/-- The outcome of a text in a batch. -/
def typeText (store : Store) (mode : ResolveMode) (text : String) :
    Except SessionError TypedInterface := typeAlone store mode (extractInterface text)

theorem typeText_eq_ok {store : Store} {mode : ResolveMode} {text : String}
    {typed : TypedInterface} :
    typeText store mode text = .ok typed ↔ ∃ statement, parse text = .ok statement ∧
        (statement.interface []).resolve store mode = .ok typed := by
  unfold typeText extractInterface
  cases parse text with
  | error e => simp [typeAlone]
  | ok statement =>
    simp only [typeAlone, Except.ok.injEq, exists_eq_left']
    cases (statement.interface []).resolve store mode <;> simp [Except.mapError]

/-! ## The report -/

theorem SessionError.severity_toDiagnostic (e : SessionError) (text : String) :
    (e.toDiagnostic text).severity = .error := by
  cases e with
  | fetch e => rfl
  | load e =>
    simp only [SessionError.toDiagnostic, LoadError.toDiagnostic]
    cases e.span <;> rfl
  | parse e => rfl

/-- What a batch reports of a statement. -/
def reportOf (query : BatchQuery) : Except SessionError TypedInterface → QueryReport
  | .ok _ => ⟨query.name, []⟩
  | .error e => ⟨query.name, [e.toDiagnostic query.text]⟩

/-- The counts of statements. -/
def ReportSummary.ofQueries (queries : List QueryReport) : ReportSummary where
  queries := queries.length
  resolved := queries.countP (!·.hasErrors)
  failed := queries.countP (·.hasErrors)
  total := (queries.flatMap (·.diagnostics)).length
  errors := (queries.flatMap (·.diagnostics)).countP (·.severity == .error)
  warnings := (queries.flatMap (·.diagnostics)).countP (·.severity == .warn)

/-- Each diagnostic is counted by its severity. -/
theorem ReportSummary.foldl_addSeverity (diagnostics : List Diagnostic) (s : ReportSummary) :
    diagnostics.foldl addSeverity s = { s with
      errors := s.errors + diagnostics.countP (·.severity == .error)
      warnings := s.warnings + diagnostics.countP (·.severity == .warn) } := by
  induction diagnostics generalizing s with
  | nil => rfl
  | cons d rest ih =>
    rw [foldl_cons, ih, addSeverity]
    cases hd : d.severity <;> simp [hd] <;> omega

/-- One more statement is one more in the counts. -/
theorem ReportSummary.addQuery_ofQueries (queries : List QueryReport) (q : QueryReport) :
    (ofQueries queries).addQuery q = ofQueries (queries ++ [q]) := by
  rw [addQuery, foldl_addSeverity]
  cases hq : q.hasErrors <;> simp [ofQueries, hq]

/-- A report with more statements. -/
def Report.addAll (r : Report) (queries : List QueryReport) : Report :=
  queries.foldl (fun r q => r.addQuery q.name q.diagnostics) r

theorem Report.addAll_eq (before queries : List QueryReport) :
    Report.addAll ⟨.ofQueries before, before⟩ queries =
      ⟨.ofQueries (before ++ queries), before ++ queries⟩ := by
  unfold addAll
  induction queries generalizing before with
  | nil => rw [append_nil]; rfl
  | cons q rest ih =>
    rw [foldl_cons, addQuery, ReportSummary.addQuery_ofQueries, ih, append_assoc]
    rfl

theorem Report.addAll_empty (queries : List QueryReport) :
    Report.empty.addAll queries = ⟨.ofQueries queries, queries⟩ := addAll_eq [] queries

theorem BatchOutcome.foldl_add (outcomes : List (BatchQuery × Except SessionError TypedInterface))
    (b : BatchOutcome) :
    outcomes.foldl (fun b p => b.add p.1 p.2) b = ⟨b.interfaces ++ outcomes.map (·.2.toOption),
        b.report.addAll (outcomes.map fun p => reportOf p.1 p.2)⟩ := by
  induction outcomes generalizing b with
  | nil => simp [Report.addAll]
  | cons p outcomes ih =>
    obtain ⟨query, outcome⟩ := p
    rw [foldl_cons, ih]
    cases outcome <;> simp [BatchOutcome.add, Report.addAll, reportOf, Except.toOption]

theorem resolveBatch_eq (store : Store) (mode : ResolveMode) (queries : List BatchQuery) :
    let reports := queries.map fun query => reportOf query (typeText store mode query.text)
    resolveBatch store mode queries =
      ⟨queries.map fun query => (typeText store mode query.text).toOption,
        ⟨.ofQueries reports, reports⟩⟩ := by
  have houtcomes :
      (queries.map fun query => extractInterface query.text).map (typeAlone store mode) =
      queries.map fun query => typeText store mode query.text := by
    simp only [map_map, Function.comp_def, typeText]
  unfold resolveBatch
  rw [resolveEach_eq_map settledViews_nil, houtcomes]
  dsimp only
  rw [← map_prod_left_eq_zip]
  refine (BatchOutcome.foldl_add _ _).trans ?_
  simp only [BatchOutcome.empty, Report.addAll_empty, map_map, nil_append, Function.comp_def]

/-! ## Counts -/

section

variable (store : Store) (mode : ResolveMode) (queries : List BatchQuery)

theorem reportOf_diagnostics (query : BatchQuery) (o : Except SessionError TypedInterface) :
    (reportOf query o).hasErrors = o.toOption.isNone ∧
      (reportOf query o).diagnostics.length = (if o.toOption.isNone then 1 else 0) ∧
      (reportOf query o).diagnostics.countP (·.severity == .error) =
        (if o.toOption.isNone then 1 else 0) := by
  cases o with
  | ok typed => exact ⟨rfl, rfl, rfl⟩
  | error e =>
    simp [reportOf, QueryReport.hasErrors, e.severity_toDiagnostic, Except.toOption]

/-- The summary of a batch counts the statements that failed. -/
theorem summary_resolveBatch : (resolveBatch store mode queries).report.summary.failed =
        (resolveBatch store mode queries).interfaces.countP (·.isNone) ∧
      (resolveBatch store mode queries).report.summary.queries =
        (resolveBatch store mode queries).report.summary.resolved +
          (resolveBatch store mode queries).report.summary.failed ∧
      (resolveBatch store mode queries).report.summary.errors =
        (resolveBatch store mode queries).report.summary.failed ∧
      (resolveBatch store mode queries).report.summary.total =
        (resolveBatch store mode queries).report.summary.failed := by
  rw [resolveBatch_eq]
  simp only [ReportSummary.ofQueries]
  induction queries with
  | nil => simp
  | cons query queries ih =>
    obtain ⟨hfailed, hqueries, herrors, htotal⟩ := ih
    obtain ⟨h1, h2, h3⟩ := reportOf_diagnostics query (typeText store mode query.text)
    simp only [map_cons, flatMap_cons, length_cons, length_append,
      countP_cons, countP_append, h1, h2, h3]
    cases (typeText store mode query.text).toOption.isNone
    · simp only [Bool.not_false, Bool.false_eq_true, if_true, if_false]
      omega
    · simp only [Bool.not_true, Bool.false_eq_true, if_true, if_false]
      omega

end

/-- Typing a batch is typing each of its statements alone, and the report counts the failures. -/
theorem resolveBatch_types_each_alone (store : Store) (mode : ResolveMode) :
    (∀ queries : List (Except SessionError Interface),
      resolveEach store mode [] queries = queries.map (typeAlone store mode)) ∧
    ∀ queries : List BatchQuery,
      (resolveBatch store mode queries).interfaces.length = queries.length ∧
      (∀ (i : Nat) (typed : TypedInterface),
        (resolveBatch store mode queries).interfaces[i]? = some (some typed) ↔
          ∃ query statement, queries[i]? = some query ∧ parse query.text = .ok statement ∧
            (statement.interface []).resolve store mode = .ok typed) ∧
      (resolveBatch store mode queries).report.queries.map (·.name) = queries.map (·.name) ∧
      (resolveBatch store mode queries).report.summary.queries =
        (resolveBatch store mode queries).report.summary.resolved +
          (resolveBatch store mode queries).report.summary.failed ∧
      (resolveBatch store mode queries).report.summary.failed =
        (resolveBatch store mode queries).interfaces.countP (·.isNone) ∧
      (resolveBatch store mode queries).report.summary.errors =
        (resolveBatch store mode queries).report.summary.failed ∧
      (resolveBatch store mode queries).report.summary.total =
        (resolveBatch store mode queries).report.summary.failed := by
  refine ⟨resolveEach_eq_map fun _ _ h => (by cases h), fun queries => ?_⟩
  obtain ⟨hfailed, hqueries, herrors, htotal⟩ := summary_resolveBatch store mode queries
  refine ⟨?_, fun i typed => ?_, ?_, hqueries, hfailed, herrors, htotal⟩
  · rw [resolveBatch_eq, length_map]
  · rw [resolveBatch_eq, getElem?_map]
    cases queries[i]? with
    | none => simp
    | some query =>
      simp only [Option.map_some, Option.some.injEq, exists_and_left, exists_eq_left']
      rw [← typeText_eq_ok]
      cases typeText store mode query.text <;> simp [Except.toOption]
  · rw [resolveBatch_eq, map_map]
    refine map_congr_left fun query _ => ?_
    simp only [Function.comp_apply]
    cases typeText store mode query.text <;> rfl

end SqlTyping
