import SqlTyping.Catalog.Record
import SqlTyping.SqlType.Render
import SqlTyping.Syntax.Parse

/-!
# What can go wrong when names are looked up

A statement that is well formed can still fail to be typed for a given catalog. `LoadProblem` has
one constructor for each reason; `LoadError` adds the place.
-/

namespace SqlTyping

/-- What becomes of a name that is not found. -/
inductive ResolveMode where
  /-- It is an error. -/
  | strict
  /-- Its type is `unknown`, and a table that is not found has no columns. -/
  | lenient
deriving DecidableEq, Inhabited

namespace ResolveMode

def name : ResolveMode → String
  | .strict => "strict"
  | .lenient => "lenient"

def ofName? (name : String) : Option ResolveMode :=
  [ResolveMode.strict, .lenient].find? (·.name == name)

end ResolveMode

inductive LoadProblem where
  /-- No source in scope has the column. `reference` is the column as it was written. -/
  | columnNotFound (reference : String) (sources : List String)
  /-- More than one source has the column. -/
  | ambiguousColumn (reference : String) (sources : List String)
  | tableNotFound (name : QualifiedName)
  /-- `table.*` where no source is called so. -/
  | starNotFound (table : String) (sources : List String)
  | functionNotFound (name : QualifiedName)
  /-- No overload accepts the arguments. -/
  | noMatchingFunction (name : QualifiedName) (args : List SqlType) (overloads : List String)
  | unknownType (name : QualifiedName)
  /-- A composite type whose attributes are composites in turn, too many times. -/
  | nestedTooDeep (name : QualifiedName)
  /-- A view that reads itself, by way of the views that are open. -/
  | viewCycle (name : QualifiedName) (opened : List QualifiedName)
  | viewSyntax (name : QualifiedName) (error : SyntaxError)
  | missingField (composite field : String)
  | fieldOfNonComposite (field : String) (type : SqlType)
deriving Inhabited

structure LoadError where
  problem : LoadProblem
  span : Option Span := none
deriving Inhabited

namespace LoadProblem

def code : LoadProblem → ErrorCode
  | .columnNotFound .. => .columnNotFound
  | .ambiguousColumn .. => .ambiguousColumn
  | .tableNotFound _ | .starNotFound .. => .tableNotFound
  | .functionNotFound _ => .functionNotFound
  | .noMatchingFunction .. => .noMatchingFunction
  | .unknownType _ | .nestedTooDeep _ => .unknownPostgresType
  | .viewCycle .. => .viewCycle
  | .viewSyntax .. => .viewParseError
  | .missingField .. => .missingCompositeField
  | .fieldOfNonComposite .. => .compositeAccessOnNonComposite

/-- The views of a cycle, from the outermost open one. -/
def cycle (name : QualifiedName) (opened : List QualifiedName) : List String :=
  (opened ++ [name]).map QualifiedName.render

/-- What was considered. -/
def candidates : LoadProblem → List String
  | .columnNotFound _ sources | .ambiguousColumn _ sources | .starNotFound _ sources => sources
  | .noMatchingFunction _ _ overloads => overloads
  | .viewCycle name opened => cycle name opened
  | _ => []

def quoted (text : String) : String := "\"" ++ text ++ "\""

def message : LoadProblem → String
  | .columnNotFound reference [] =>
    "Column " ++ quoted reference ++ " not found, the query has no sources"
  | .columnNotFound reference sources =>
    "Column " ++ quoted reference ++ " not found in " ++ ", ".intercalate sources
  | .ambiguousColumn reference sources =>
    "Column " ++ quoted reference ++ " is ambiguous, it exists in " ++ ", ".intercalate sources
  | .tableNotFound name => "Table " ++ quoted name.render ++ " not found in database"
  | .starNotFound table _ =>
    "Source " ++ quoted table ++ " for " ++ quoted (table ++ ".*") ++ " not found"
  | .functionNotFound name => "Function " ++ quoted name.render ++ " not found"
  | .noMatchingFunction name args _ =>
    "No variant of " ++ quoted name.render ++ " accepts ("
      ++ ", ".intercalate (args.map SqlType.render) ++ ")"
  | .unknownType name =>
    "Type " ++ quoted name.render ++ " is not a built in, enum or composite type"
  | .nestedTooDeep name => "Composite type " ++ quoted name.render ++ " nests too deeply"
  | .viewCycle name opened =>
    "View " ++ quoted name.render ++ " depends on itself: "
      ++ " -> ".intercalate (cycle name opened)
  | .viewSyntax name error =>
    "Could not parse view " ++ quoted name.render ++ ": " ++ error.fullMessage
  | .missingField composite field =>
    "Composite type " ++ quoted composite ++ " has no field " ++ quoted field
  | .fieldOfNonComposite field type =>
    "Cannot access field " ++ quoted field ++ " of non composite type " ++ type.render

end LoadProblem

namespace LoadError

variable (e : LoadError)

def withSpan (span : Span) : LoadError := { e with span := some span }

def code : ErrorCode := e.problem.code

/-- The message with its code in front. -/
def fullMessage : String := e.code.name ++ ": " ++ e.problem.message

/-- Was something looked up and not found? These are the errors that lenient typing recovers. -/
def isNotFound : Bool :=
  match e.code with
  | .columnNotFound | .functionNotFound | .noMatchingFunction | .unknownPostgresType
  | .tableNotFound => true
  | _ => false

def toDiagnostic (text : String) : Diagnostic :=
  let d : Diagnostic := {
    code := e.code, severity := .error, message := e.problem.message
    candidates := e.problem.candidates }
  match e.span with
  | some span => d.withSpan text span
  | none => d

end LoadError

end SqlTyping
