import SqlTyping.Syntax.Grammar.Call

/-!
# Operands

Expressions without a binary operator: literals, names, calls, what stands in parentheses, and the
operators that stand before or after one operand.
-/

namespace SqlTyping.Grammar

open Rule

variable (g : Grammar)

/-- `(query)`, `(expr)`, or a row `(a, b)`. -/
def parenthesized : Rule Expr := do
  let start ← begin
  let _ ← punct "("
  match ← g.closedQuery with
  | some query => return .subquery query (← spanFrom start)
  | none =>
    let elements ← g.exprs
    let _ ← punct ")"
    let span ← spanFrom start
    match elements with
    | [inner] => return .nested inner span
    | elements => return .row elements span

def literalValue : Rule Literal := firstOf [
  do return .number (← number).value,
  do return .string (← string).value,
  do return (← oneOf [("TRUE", .boolean true), ("FALSE", .boolean false), ("NULL", .null)]).value]

def literal : Rule Expr := do
  let start ← begin
  match ← maybe literalValue with
  | some value => return .literal value (← spanFrom start)
  | none => fail "literal"

def whenClause : Rule WhenClause := do
  let _ ← keyword "WHEN"
  let condition ← g.expr
  let _ ← keyword "THEN"
  return ⟨condition, ← g.expr⟩

def otherwise : Rule Expr := do
  let _ ← keyword "ELSE"
  g.expr

def caseOperand : Rule (Option Expr) := do
  if ← peek (keyword "WHEN") then return none else return some (← g.expr)

def case : Rule Expr := do
  let start ← begin
  let _ ← keyword "CASE"
  let operand ← g.caseOperand
  let whens ← plus g.whenClause
  let otherwise ← maybe g.otherwise
  let _ ← keyword "END"
  return .case operand whens otherwise (← spanFrom start)

/-- `CAST(expr AS type)`. -/
def castCall : Rule Expr := do
  let start ← begin
  let _ ← keyword "CAST"
  let _ ← punct "("
  let operand ← g.expr
  let _ ← keyword "AS"
  let target ← dataType
  let _ ← punct ")"
  return .cast operand target (← spanFrom start)

def existsRow : Rule Expr := do
  let start ← begin
  let _ ← keyword "EXISTS"
  let subquery ← parens g.query
  return .existsRow subquery (← spanFrom start)

/-- `[a, b]`; brackets inside are arrays again. -/
def elements : Rule (List Expr) := do
  let _ ← punct "["
  let elements ← maybeD [] (separated "," (firstOf [g.arrayElements, g.expr]))
  let _ ← punct "]"
  return elements

def innerArray : Rule Expr := do
  let start ← begin
  let elements ← g.elements
  return .array elements (← spanFrom start)

/-- `ARRAY[...]` or `ARRAY(query)`. -/
def array : Rule Expr := do
  let start ← begin
  let _ ← keyword "ARRAY"
  match ← maybe g.elements with
  | some elements => return .array elements (← spanFrom start)
  | none =>
    let query ← parens g.query
    return .arraySubquery query (← spanFrom start)

def row : Rule Expr := do
  let start ← begin
  let _ ← keyword "ROW"
  let elements ← parens (maybeD [] g.exprs)
  return .row elements (← spanFrom start)

def extractPart : Rule String := do
  match ← maybe string with
  | some part => return Text.lower part.value
  | none => return (← label).value

/-- `EXTRACT(part FROM source)`. -/
def extract : Rule Expr := do
  let start ← begin
  let _ ← keyword "EXTRACT"
  let _ ← punct "("
  let part ← extractPart
  let _ ← keyword "FROM"
  let source ← g.expr
  let _ ← punct ")"
  return .extract part source (← spanFrom start)

/-- `CURRENT_TIMESTAMP` and the like, with an optional precision. -/
def current : Rule Expr := do
  let start ← begin
  let kind ← oneOf [
    ("CURRENT_DATE", CurrentKind.date), ("CURRENT_TIMESTAMP", .timestamp), ("CURRENT_TIME", .time),
    ("LOCALTIMESTAMP", .localTimestamp), ("LOCALTIME", .localTime), ("CURRENT_USER", .user),
    ("SESSION_USER", .user), ("USER", .user)]
  let _ ← found (parens number)
  return .current kind.value (← spanFrom start)

def defaultValue : Rule Expr := do return .defaultValue (← keyword "DEFAULT")

/-- A type and a string, such as `DATE '2020-01-01'`. -/
def typedString : Rule Expr := do
  let start ← begin
  let target ← dataType
  let value ← string
  return .typedString target value.value (← spanFrom start)

/-- A name after a dot that can stand in text that is complete. A reserved word in text that is
being typed starts the next clause. -/
def finishedPart : Rule Ident := do
  let part ← label
  if ← isTolerant then
    if !part.quoted && Lexeme.isReserved part.value then reject else return part
  else return part

/-- A dot and the name after it, and whether more may follow. The dot of `.*` is not read. In text
that is being typed the name may be missing. -/
def columnPart : Rule (Ident × Bool) := do
  let _ ← punct "."
  if ← peek (punct "*") then reject
  else
    match ← maybe finishedPart with
    | some part => return (part, true)
    | none =>
      if ← isTolerant then
        let stop ← position
        return (⟨"", false, ⟨stop, stop⟩⟩, false)
      else reject

/-- `column`, `table.column` or `schema.table.column`. -/
def column : Rule Expr := do
  let start ← begin
  let first ← ident
  match ← maybe columnPart with
  | none => return .column none none first (← spanFrom start)
  | some (second, false) => return .column none (some first) second (← spanFrom start)
  | some (second, true) =>
    match ← maybe columnPart with
    | none => return .column none (some first) second (← spanFrom start)
    | some (third, _) => return .column (some first) (some second) third (← spanFrom start)

def primary : Rule Expr := do
  let found ← maybe <| firstOf [
    g.parenthesized, do return .param (← paramRef), literal, g.case, g.castCall, g.existsRow,
    g.array, g.row, g.extract, current, defaultValue, g.keywordCall, typedString,
    do return .function (← g.functionCall), column]
  match found with
  | some e => return e
  | none => fail "expression"

/-- `[i]` or `[low:high]`, of which each bound may be missing. -/
def subscript : Rule (Option Expr × Option Expr × Bool) := do
  let _ ← punct "["
  let lower ← maybe g.expr
  let slice ← found (punct ":")
  let upper ← if slice then maybe g.expr else pure none
  let _ ← punct "]"
  if lower.isNone && !slice then reject else return (lower, upper, slice)

/-- May a field be taken of the expression as it stands? -/
def hasFields : Expr → Bool
  | .nested .. | .field .. | .subscript .. => true
  | _ => false

def fieldOf (e : Expr) : Rule Ident := if hasFields e then dotted label else reject

def collation : Rule ObjectName := do
  let _ ← keyword "COLLATE"
  objectName

/-- One operator after the operand `e`, which starts at `start`: a cast, a subscript, a field, a
collation, which is dropped, or a time zone. -/
def postfixStep (start : Nat) (e : Expr) : Rule (Option Expr) := do
  if ← found (punct "::") then
    let target ← dataType
    return some (.cast e target (← spanFrom start))
  else
    match ← maybe g.subscript with
    | some (lower, upper, slice) => return some (.subscript e lower upper slice (← spanFrom start))
    | none =>
      match ← maybe (fieldOf e) with
      | some name => return some (.field e name (← spanFrom start))
      | none =>
        if ← found collation then return some e
        else
          match ← maybe (keywords ["AT", "TIME", "ZONE"]) with
          | some span =>
            let zone ← g.unary
            return some (.binary e ⟨"AT TIME ZONE", span⟩ zone (← spanFrom start))
          | none => return none

/-- An operand with the operators after it. -/
def suffixed : Rule Expr := do
  let start ← begin
  let first ← g.primary
  grow (g.postfixStep start) first

def isSign (op : String) : Bool := ["-", "+", "~", "@", "|/", "||/", "!!"].contains op

/-- An operand with the operators before and after it. -/
def signed : Rule Expr := do
  let start ← begin
  match ← maybe (operatorWhere "expression" isSign) with
  | some op =>
    let operand ← nested g.unary
    return .unary ⟨op.value, op.span⟩ operand (← spanFrom start)
  | none => g.suffixed

end SqlTyping.Grammar
