import SqlTyping.Diagnostic.Codec
import SqlTyping.Json.Render

/-!
# Reports

The diagnostics of a batch of statements, with counts.
-/

namespace SqlTyping

structure QueryReport where
  name : String
  diagnostics : List Diagnostic
deriving DecidableEq, Inhabited

structure ReportSummary where
  queries : Nat := 0
  /-- Statements without errors. -/
  resolved : Nat := 0
  /-- Statements with an error. -/
  failed : Nat := 0
  /-- All diagnostics. -/
  total : Nat := 0
  errors : Nat := 0
  warnings : Nat := 0
deriving DecidableEq, Inhabited

/-- The counts are kept up to date while statements are added. -/
structure Report where
  summary : ReportSummary
  /-- The statements in the order of the batch. -/
  queries : List QueryReport
deriving DecidableEq, Inhabited

/-- The version of the format of reports. -/
structure ReportVersion where
  major : Nat
  minor : Nat
deriving DecidableEq, Inhabited

def ReportVersion.current : ReportVersion := ⟨1, 0⟩

def ReportVersion.render (v : ReportVersion) : String :=
  toString v.major ++ "." ++ toString v.minor

def QueryReport.hasErrors (q : QueryReport) : Bool := q.diagnostics.any (·.severity == .error)

namespace ReportSummary

/-- Counts a diagnostic by its severity. -/
def addSeverity (s : ReportSummary) (d : Diagnostic) : ReportSummary :=
  match d.severity with
  | .error => { s with errors := s.errors + 1 }
  | .warn => { s with warnings := s.warnings + 1 }
  | .info => s

/-- Counts a statement and its diagnostics. -/
def addQuery (s : ReportSummary) (q : QueryReport) : ReportSummary :=
  let s := { s with queries := s.queries + 1 }
  let s := if q.hasErrors then { s with failed := s.failed + 1 }
    else { s with resolved := s.resolved + 1 }
  let s := q.diagnostics.foldl addSeverity s
  { s with total := s.total + q.diagnostics.length }

end ReportSummary

namespace Report

def empty : Report := ⟨{}, []⟩

def addQuery (r : Report) (name : String) (diagnostics : List Diagnostic) : Report :=
  let query : QueryReport := ⟨name, diagnostics⟩
  ⟨r.summary.addQuery query, r.queries ++ [query]⟩

def diagnostics (r : Report) : List Diagnostic := r.queries.flatMap (·.diagnostics)

def hasErrors (r : Report) : Bool := 0 < r.summary.errors

end Report

/-! ## JSON -/

def ReportVersion.toJson (v : ReportVersion) : Json :=
  .object [⟨"major", .nat v.major⟩, ⟨"minor", .nat v.minor⟩]

def ReportSummary.toJson (s : ReportSummary) : Json :=
  .object [⟨"queries", .nat s.queries⟩, ⟨"resolved", .nat s.resolved⟩, ⟨"failed", .nat s.failed⟩,
    ⟨"total", .nat s.total⟩, ⟨"errors", .nat s.errors⟩, ⟨"warnings", .nat s.warnings⟩]

namespace QueryReport

def toJson (q : QueryReport) : Json :=
  .object [⟨"name", .string q.name⟩, ⟨"diagnostics", .ofList Diagnostic.toJson q.diagnostics⟩]

def ofJson? (json : Json) : Option QueryReport := do
  return ⟨← json.require "name" Json.asString?,
    ← json.require "diagnostics" (Json.readList Diagnostic.ofJson?)⟩

end QueryReport

namespace Report

def toJson (r : Report) : Json :=
  .object [⟨"version", ReportVersion.current.toJson⟩, ⟨"summary", r.summary.toJson⟩,
    ⟨"queries", .ofList QueryReport.toJson r.queries⟩]

/-- The report as it is saved. -/
def render (r : Report) : String := r.toJson.render

end Report

end SqlTyping
