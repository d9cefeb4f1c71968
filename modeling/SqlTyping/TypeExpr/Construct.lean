import SqlTyping.Syntax.Node
import SqlTyping.TypeExpr.Basic
import SqlTyping.TypeName.Builtin

/-!
# Types of constructs

The types of literals, casts, items of arrays, fields and operators, given the types of their parts.
-/

namespace SqlTyping

/-- The value of a numeral that consists of digits. -/
def numeralValue? (text : String) : Option Nat :=
  let digits := text.toList
  if digits.all Char.isDigit then
    some (digits.foldl (fun n c => 10 * n + (c.toNat - '0'.toNat)) 0)
  else none

/-- The smallest of the types `int4`, `int8` and `numeric` that holds a numeral. -/
def numeralType (text : String) : SqlType :=
  match numeralValue? text with
  | some n =>
    if n < 0x80000000 then SqlType.number.withPostgres "int4"
    else if n < 0x8000000000000000 then SqlType.bigint.withPostgres "int8"
    else SqlType.string.withPostgres "numeric"
  | none => SqlType.string.withPostgres "numeric"

def Literal.type : Literal → SqlType
  | .number text => numeralType text
  | .string _ => SqlType.string.withPostgres "text"
  | .boolean _ => SqlType.boolean.withPostgres "bool"
  | .null => .null

def CurrentKind.type : CurrentKind → SqlType
  | .date => SqlType.date.withPostgres "date"
  | .time => SqlType.string.withPostgres "timetz"
  | .timestamp => SqlType.date.withPostgres "timestamptz"
  | .localTime => SqlType.string.withPostgres "time"
  | .localTimestamp => SqlType.date.withPostgres "timestamp"
  | .user => SqlType.string.withPostgres "name"

namespace TypeExpr

def unknown : TypeExpr := .known .unknown
def boolean : TypeExpr := .known .boolean
def number : TypeExpr := .known .number
def string : TypeExpr := .known .string
def null : TypeExpr := .known .null

/-- The given number of arrays around a type that waits. -/
def arrays (items : TypeExpr) : (n : Nat) → TypeExpr
  | 0 => items
  | n + 1 => .array (arrays items n) false

/-- The type that is written at `span`. -/
def ofDataType (t : DataType) (span : Span) : TypeExpr :=
  match builtinType? t.fullName with
  | some type => .known type
  | none => arrays (.named t.schema t.name false span) t.dimensions

/-- An item of an array. A part of a JSON value is a JSON value. -/
def itemOf : TypeExpr → TypeExpr
  | .known ⟨.array items, _, _⟩ => .known items
  | .known ⟨.json, _, _⟩ => .known .json
  | .known _ => unknown
  | value => .arrayItem value

/-- A value cast to `target`, which is null if the value is. -/
def castTo (value target : TypeExpr) : TypeExpr :=
  match value, target with
  | .known value, .known target => .known (target.withNullable value.nullable)
  | value, target => .cast value target

/-- A field of a value. -/
def fieldOf (value : TypeExpr) (name : String) (span : Span) : TypeExpr :=
  match value with
  | .known ⟨.composite _ attributes, _, _⟩ =>
    match attributes.find? (·.name == name) with
    | some found => .known found.value
    | none => .fieldAccess value name span
  | value => .fieldAccess value name span

/-- A part of the overload of an operator that its operands call for. -/
def ofOperator (symbol : String) (available : List Overload) (left right : TypeExpr)
    (part : OperatorPart) (span : Span) : TypeExpr :=
  match left, right with
  | .known left, .known right => .known (Overload.resolve available left right part)
  | left, right => .operator symbol left right available part span

end TypeExpr

end SqlTyping
