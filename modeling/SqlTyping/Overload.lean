import SqlTyping.SqlType.Accepts

/-!
# Overloads of operators

A binary operator has a list of overloads in order of preference. `Overload.choose?` picks the one
that two operand types call for.
-/

namespace SqlTyping

/-- One signature of a binary operator. -/
structure Overload where
  left : SqlType
  right : SqlType
  result : SqlType
deriving DecidableEq

/-- A part of a signature. -/
inductive OperatorPart where
  | left
  | right
  | result
deriving DecidableEq, Inhabited

mutual

/-- Do both types have the same kind? A literal counts as a string, also as the item of an array. -/
def SqlType.isExactly (declared actual : SqlType) : Bool :=
  match declared with
  | ⟨kind, _, _⟩ => TypeKind.isExactly kind actual.kind

def TypeKind.isExactly (declared actual : TypeKind SqlType) : Bool :=
  match declared, actual with
  | .string, .literal _ => true
  | .array items, .array actualItems => items.isExactly actualItems
  | declared, actual => declared == actual

end

namespace Overload

variable (available : List Overload)

def arithmetic : List Overload := [
  ⟨.number, .number, .number⟩, ⟨.bigint, .bigint, .bigint⟩, ⟨.bigint, .number, .bigint⟩,
  ⟨.number, .bigint, .bigint⟩, ⟨.string, .string, .string⟩]

def table : List (String × List Overload) := [
  ("+", arithmetic ++ [⟨.date, .string, .date⟩, ⟨.string, .date, .date⟩]),
  ("-", arithmetic ++ [⟨.date, .string, .date⟩, ⟨.date, .date, .string⟩, ⟨.json, .string, .json⟩]),
  ("*", arithmetic ++ [⟨.string, .number, .string⟩]),
  ("/", arithmetic ++ [⟨.string, .number, .string⟩]),
  ("%", arithmetic),
  ("^", [⟨.number, .number, .number⟩, ⟨.string, .string, .string⟩]),
  ("&", [⟨.number, .number, .number⟩, ⟨.bigint, .bigint, .bigint⟩]),
  ("|", [⟨.number, .number, .number⟩, ⟨.bigint, .bigint, .bigint⟩]),
  ("#", [⟨.number, .number, .number⟩, ⟨.bigint, .bigint, .bigint⟩]),
  ("<<", [⟨.number, .number, .number⟩, ⟨.bigint, .number, .bigint⟩]),
  (">>", [⟨.number, .number, .number⟩, ⟨.bigint, .number, .bigint⟩]),
  ("||", [⟨.string, .string, .string⟩, ⟨.json, .json, .json⟩,
    ⟨.array .any, .array .any, .array .any⟩]),
  ("->", [⟨.json, .string, .json⟩, ⟨.json, .number, .json⟩]),
  ("->>", [⟨.json, .string, .string⟩, ⟨.json, .number, .string⟩]),
  ("#>", [⟨.json, .array .string, .json⟩]),
  ("#>>", [⟨.json, .array .string, .string⟩]),
  ("@>", [⟨.json, .json, .boolean⟩, ⟨.array .any, .array .any, .boolean⟩]),
  ("<@", [⟨.json, .json, .boolean⟩, ⟨.array .any, .array .any, .boolean⟩]),
  ("&&", [⟨.array .any, .array .any, .boolean⟩]),
  ("?", [⟨.json, .string, .boolean⟩]),
  ("?|", [⟨.json, .array .string, .boolean⟩]),
  ("?&", [⟨.json, .array .string, .boolean⟩]),
  ("~", [⟨.string, .string, .boolean⟩]),
  ("~*", [⟨.string, .string, .boolean⟩]),
  ("!~", [⟨.string, .string, .boolean⟩]),
  ("!~*", [⟨.string, .string, .boolean⟩]),
  ("@@", [⟨.string, .string, .boolean⟩])]

/-- The overloads of an operator, in order of preference. -/
def ofSymbol (symbol : String) : List Overload :=
  ((table.find? (·.1 == symbol)).map Prod.snd).getD []

/-- Comparisons are boolean for operands of any type, so they need no overloads. -/
def isComparison (symbol : String) : Bool := ["=", "<>", "<", ">", "<=", ">="].contains symbol

/-- The first overload whose operands are exactly of these types. -/
def firstExact (left right : SqlType) : Option Overload :=
  available.find? fun v => v.left.isExactly left && v.right.isExactly right

/-- The only overload that accepts one of the operands. -/
def onlyLoose? (left right : SqlType) : Option Overload :=
  match available.filter fun v => v.left.accepts left || v.right.accepts right with
  | [only] => some only
  | _ => none

/-- The overload for two operands: the first that fits them exactly; or, when one of them is
unknown, the first that fits the known one exactly on both sides; or the only one that accepts
either. -/
def choose? (left right : SqlType) : Option Overload :=
  firstExact available left right
    <|> (match left.isUnknown, right.isUnknown with
      | true, false => firstExact available right right
      | false, true => firstExact available left left
      | _, _ => none)
    <|> onlyLoose? available left right

/-- A part of the chosen overload, or `unknown` if none is chosen. The result is nullable if an
operand is. -/
def resolve (left right : SqlType) (part : OperatorPart) : SqlType :=
  match choose? available left right with
  | none => .unknown
  | some v =>
    match part with
    | .left => v.left
    | .right => v.right
    | .result => v.result.withNullable (left.nullable || right.nullable)

end Overload

end SqlTyping
