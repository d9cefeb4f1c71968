import SqlTyping.Diagnostic.Basic
import SqlTyping.Syntax.Grammar.Statement

/-!
# Parsing

`parse` reads one statement, which may end in a semicolon. If the text is no statement, the error is
reported at the furthest place that a rule came to.
-/

namespace SqlTyping

/-- Why a text is no statement. -/
inductive SyntaxProblem where
  /-- One of the given things was expected; `found` is the word that stands there. -/
  | unexpected (expected : List String) (found : Option String)
  | tooDeep
deriving DecidableEq, Inhabited

structure SyntaxError where
  position : Nat
  place : Place
  problem : SyntaxProblem
deriving DecidableEq, Inhabited

namespace SyntaxProblem

def expected : SyntaxProblem → List String
  | .unexpected expected _ => expected
  | .tooDeep => []

def message : SyntaxProblem → String
  | .unexpected expected found =>
    let found := match found with
      | some word => "\"" ++ word ++ "\""
      | none => "end of input"
    match expected with
    | [] => "Unexpected " ++ found
    | labels => "Expected " ++ " or ".intercalate labels ++ ", found " ++ found
  | .tooDeep => "Nesting exceeds " ++ toString maxDepth ++ " levels"

end SyntaxProblem

namespace SyntaxError

variable (e : SyntaxError)

def message : String := e.problem.message

/-- The message with its place. -/
def fullMessage : String :=
  e.message ++ " at line " ++ toString e.place.line ++ ", column " ++ toString e.place.column

/-- The text from the place of the error on. -/
def remainder (text : String) : List Char :=
  (Text.dropBytes? e.position text.toList).getD []

/-- The word at the place of the error, and at least one byte. -/
def span (text : String) : Span :=
  let word := (e.remainder text).takeWhile (!Text.isBlank ·)
  ⟨e.position, e.position + max (Text.byteSize word) 1⟩

def toDiagnostic (text : String) : Diagnostic :=
  ({ code := .sqlParseError, severity := .error, message := e.message
     candidates := e.problem.expected } : Diagnostic).withSpan text (e.span text)

/-- The error at the furthest place of a run. -/
def ofCursor (text : String) (c : Cursor) : SyntaxError :=
  let found := ((Text.dropBytes? c.furthest text.toList).bind Text.firstWord?).map String.ofList
  { position := c.furthest, place := .ofOffset text c.furthest
    problem := .unexpected c.expected found }

end SyntaxError

/-- A statement and nothing after it but a semicolon. -/
def Grammar.wholeStatement (g : Grammar) : Rule Statement := do
  let statement ← g.statement
  let _ ← Rule.found (Rule.punct ";")
  if ← Rule.atEnd then return statement else Rule.fail "end of input"

/-- Reads a statement. In text that is being typed, a list may end in a comma, and the name of a
column may be missing after the name of its table. -/
def parseWith (tolerant : Bool) (text : String) : Except SyntaxError Statement :=
  let (parsed, c) := (Grammar.ofText text).wholeStatement.run tolerant text
  match c.tooDeep, parsed with
  | some position, _ => .error { position, place := .ofOffset text position, problem := .tooDeep }
  | none, some statement => .ok statement
  | none, none => .error (.ofCursor text c)

/-- Reads a complete statement. -/
def parse (text : String) : Except SyntaxError Statement := parseWith false text

/-- Reads a statement that is being typed. -/
def parsePartial (text : String) : Except SyntaxError Statement := parseWith true text

end SqlTyping
