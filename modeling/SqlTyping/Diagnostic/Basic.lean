import SqlTyping.Text.Place

/-!
# Diagnostics

What is reported about a statement: a code, a severity, a message, and where in the text it applies.
-/

namespace SqlTyping

inductive ErrorCode where
  | sqlParseError
  | columnNotFound
  | ambiguousColumn
  | functionNotFound
  | noMatchingFunction
  | unknownPostgresType
  | compositeAccessOnNonComposite
  | missingCompositeField
  | tableNotFound
  | viewCycle
  | viewParseError
  | catalogError
deriving DecidableEq, Inhabited

namespace ErrorCode

def all : List ErrorCode := [
  .sqlParseError, .columnNotFound, .ambiguousColumn, .functionNotFound, .noMatchingFunction,
  .unknownPostgresType, .compositeAccessOnNonComposite, .missingCompositeField, .tableNotFound,
  .viewCycle, .viewParseError, .catalogError]

def name : ErrorCode → String
  | .sqlParseError => "SQL_PARSE_ERROR"
  | .columnNotFound => "COLUMN_NOT_FOUND"
  | .ambiguousColumn => "AMBIGUOUS_COLUMN"
  | .functionNotFound => "FUNCTION_NOT_FOUND"
  | .noMatchingFunction => "NO_MATCHING_FUNCTION"
  | .unknownPostgresType => "UNKNOWN_POSTGRES_TYPE"
  | .compositeAccessOnNonComposite => "COMPOSITE_ACCESS_ON_NON_COMPOSITE"
  | .missingCompositeField => "MISSING_COMPOSITE_FIELD"
  | .tableNotFound => "TABLE_NOT_FOUND"
  | .viewCycle => "VIEW_CYCLE"
  | .viewParseError => "VIEW_PARSE_ERROR"
  | .catalogError => "CATALOG_ERROR"

def ofName? (name : String) : Option ErrorCode := all.find? (·.name == name)

end ErrorCode

inductive Severity where
  | info
  | warn
  | error
deriving DecidableEq, Inhabited

namespace Severity

def name : Severity → String
  | .info => "info"
  | .warn => "warn"
  | .error => "error"

def ofName? (name : String) : Option Severity :=
  [Severity.info, .warn, .error].find? (·.name == name)

end Severity

/-- A span in lines and columns. -/
structure Location where
  start : Place
  stop : Place
deriving DecidableEq, Inhabited

def Location.ofSpan (text : String) (span : Span) : Location :=
  ⟨.ofOffset text span.start, .ofOffset text span.stop⟩

structure Diagnostic where
  code : ErrorCode
  severity : Severity
  message : String
  span : Option Span := none
  location : Option Location := none
  /-- What was considered, or would have been accepted. -/
  candidates : List String := []
deriving DecidableEq, Inhabited

namespace Diagnostic

/-- The diagnostic at a span of `text`. -/
def withSpan (d : Diagnostic) (text : String) (span : Span) : Diagnostic :=
  { d with span := some span, location := some (.ofSpan text span) }

/-- The diagnostic as text, with a marker below the line of `text` it is about. -/
def render (d : Diagnostic) (text : String) : String :=
  let place := match d.location with
    | some l => " (line " ++ toString l.start.line ++ ", column " ++ toString l.start.column ++ ")"
    | none => ""
  let marker := match d.span with
    | some span => "\n" ++ Text.marker text span
    | none => ""
  d.severity.name ++ "[" ++ d.code.name ++ "]: " ++ d.message ++ place ++ marker

end Diagnostic

end SqlTyping
