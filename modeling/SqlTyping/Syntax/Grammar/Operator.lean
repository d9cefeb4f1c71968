import SqlTyping.Syntax.Grammar.Basic

/-!
# Operators

Operators come in levels, from the loosest to the tightest. An operand is read first; then each
round puts the tightest operator around it that follows, until none does. The right operand of an
operator is of a tighter level, so operators of one level group to the left: `1 - 2 + 2` is `(1 - 2)
+ 2`.
-/

namespace SqlTyping.Grammar

open Rule

variable (g : Grammar)

/-- A level of operators. -/
inductive Level where
  /-- `AND` or `OR`. -/
  | connective (word : String)
  /-- `NOT` before its operand. -/
  | negation
  /-- `IS NULL` and the like, after an operand. -/
  | test
  /-- `IN`, `BETWEEN` and `LIKE`, after an operand. -/
  | membership
  /-- Operators with a symbol. Where `quantified`, the right side may be `ANY (...)`. -/
  | symbols (label : String) (quantified : Bool) (allowed : String → Bool)

def isComparison (op : String) : Bool := ["=", "<>", "<", ">", "<=", ">="].contains op
def isAdditive (op : String) : Bool := ["+", "-"].contains op
def isMultiplicative (op : String) : Bool := ["*", "/", "%"].contains op
def isExponent (op : String) : Bool := op == "^"

/-- All levels, the loosest first. -/
def levels : List Level := [
  .connective "OR",
  .connective "AND",
  .negation,
  .test,
  .symbols "comparison operator" true isComparison,
  .membership,
  .symbols "operator" true fun op =>
    !isComparison op && !isAdditive op && !isMultiplicative op && !isExponent op,
  .symbols "operator" false isAdditive,
  .symbols "operator" false isMultiplicative,
  .symbols "operator" false isExponent]

/-- The place of `NOT` in `levels`. -/
def negationLevel : Nat := 2

/-- The place of comparisons in `levels`. -/
def comparisonLevel : Nat := 4

/-- The place in `levels` of the symbols that are no comparison and no arithmetic. -/
def symbolLevel : Nat := 6

/-- What an operator makes of the operand before it, given the span of the whole. -/
abbrev Suffix := Expr → Span → Expr

/-- `ANY (...)`, `SOME (...)` or `ALL (...)` after the operator `op`. -/
def quantified (op : Operator) : Rule Suffix := do
  let quantifier ← oneOf [("ANY", Quantifier.any), ("SOME", .any), ("ALL", .all)]
  let _ ← punct "("
  match ← g.closedQuery with
  | some query => return fun left => .quantifiedSubquery left op quantifier.value query
  | none =>
    let array ← g.expr
    let _ ← punct ")"
    return fun left => .quantified left op quantifier.value array

def truthTest : Rule TruthTest := do
  let test ← oneOf [("NULL", .null), ("TRUE", .true), ("FALSE", .false), ("UNKNOWN", .unknown)]
  return test.value

/-- `ISNULL`, `NOTNULL`, or `IS [NOT]` and a test. -/
def isSuffix : Rule Suffix := do
  if ← found (keyword "ISNULL") then return fun e => .is e false .null
  else if ← found (keyword "NOTNULL") then return fun e => .is e true .null
  else
    let _ ← keyword "IS"
    let negated ← found (keyword "NOT")
    match ← maybe truthTest with
    | some test => return fun e => .is e negated test
    | none =>
      let _ ← keywords ["DISTINCT", "FROM"]
      let other ← g.level comparisonLevel
      return fun e => .isDistinctFrom e negated other

/-- `[NOT] IN` and a spread parameter, a query or a list. -/
def inSuffix : Rule Suffix := do
  let negated ← found (keyword "NOT")
  let _ ← keyword "IN"
  match ← maybe paramRef with
  | some ref => return fun e => .inParam e negated ref
  | none =>
    let _ ← punct "("
    match ← g.closedQuery with
    | some subquery => return fun e => .inSubquery e negated subquery
    | none =>
      let list ← g.exprs
      let _ ← punct ")"
      return fun e => .inList e negated list

def symmetric : Rule Bool := do
  match ← maybe (oneOf [("SYMMETRIC", true), ("ASYMMETRIC", false)]) with
  | some found => return found.value
  | none => return false

/-- `[NOT] BETWEEN low AND high`. -/
def betweenSuffix : Rule Suffix := do
  let negated ← found (keyword "NOT")
  let _ ← keyword "BETWEEN"
  let symmetric ← symmetric
  let low ← g.level symbolLevel
  let _ ← keyword "AND"
  let high ← g.level symbolLevel
  return fun e => .between e negated symmetric low high

def likeKind : Rule LikeKind := do
  match ← maybe (oneOf [("LIKE", LikeKind.like), ("ILIKE", .ilike)]) with
  | some kind => return kind.value
  | none =>
    let _ ← keywords ["SIMILAR", "TO"]
    return .similarTo

def escape : Rule Expr := do
  let _ ← keyword "ESCAPE"
  g.level symbolLevel

/-- `[NOT] LIKE pattern [ESCAPE character]`. -/
def likeSuffix : Rule Suffix := do
  let negated ← found (keyword "NOT")
  let kind ← likeKind
  let pattern ← g.level symbolLevel
  let escape ← maybe g.escape
  return fun e => .like e negated kind pattern escape

/-- A binary operator and its right operand, which is of a level tighter than `i`. -/
def rightOperand (i : Nat) (op : Operator) : Rule Suffix := do
  let right ← g.level (i + 1)
  return fun left => .binary left op right

/-- What may follow an operand at the level with index `i`. -/
def suffix (i : Nat) : Level → Rule Suffix
  | .connective word => do
    let span ← keyword word
    g.rightOperand i ⟨word, span⟩
  | .negation => reject
  | .test => g.isSuffix
  | .membership => firstOf [g.inSuffix, g.betweenSuffix, g.likeSuffix]
  | .symbols label isQuantified allowed => do
    let token ← operatorWhere label allowed
    let op : Operator := ⟨token.value, token.span⟩
    if isQuantified then
      match ← maybe (g.quantified op) with
      | some suffix => return suffix
      | none => g.rightOperand i op
    else g.rightOperand i op

/-- The tightest operator that follows, if it is of level `min` or tighter. -/
def anySuffix (min : Nat) : Rule Suffix :=
  firstOf ((levels.zipIdx.drop min).reverse.map fun (level, i) => g.suffix i level)

/-- An operand: `NOT` takes all that binds at least as tightly as itself. -/
def operand (unary : Rule Expr) (min : Nat) : Rule Expr := do
  if min ≤ negationLevel then
    let start ← begin
    match ← maybe (keyword "NOT") with
    | some span =>
      let operand ← nested (g.level negationLevel)
      return .unary ⟨"NOT", span⟩ operand (← spanFrom start)
    | none => unary
  else unary

/-- An expression of level `min` or tighter, with `unary` for what has no binary operator. -/
def operators (unary : Rule Expr) (min : Nat) : Rule Expr := do
  let start ← begin
  let first ← g.operand unary min
  let step (left : Expr) : Rule (Option Expr) := do
    match ← maybe (g.anySuffix min) with
    | some suffix => return some (suffix left (← spanFrom start))
    | none => return none
  grow step first

end SqlTyping.Grammar
