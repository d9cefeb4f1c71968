import SqlTyping.Syntax.Grammar.Operator

/-!
# Function calls
-/

namespace SqlTyping.Grammar

open Rule

variable (g : Grammar)

/-! ## Windows -/

/-- The name of a window, if the specification goes on or ends after it. -/
def baseWindow : Rule Ident := do
  let name ← ident
  if ← peek (keyword "PARTITION") then return name
  else if ← peek (keyword "ORDER") then return name
  else if ← peek (punct ")") then return name
  else reject

def partitionBy : Rule (List Expr) := do
  let _ ← keywords ["PARTITION", "BY"]
  g.exprs

def frameBound : Rule Unit := do
  if ← found (keywords ["UNBOUNDED", "PRECEDING"]) then return
  else if ← found (keywords ["UNBOUNDED", "FOLLOWING"]) then return
  else if ← found (keywords ["CURRENT", "ROW"]) then return
  else
    let _ ← g.level symbolLevel
    let _ ← anyOf ["PRECEDING", "FOLLOWING"]
    return

def frameExclusion : Rule Span := do
  let _ ← keyword "EXCLUDE"
  firstOf [keywords ["CURRENT", "ROW"], keyword "GROUP", keyword "TIES", keywords ["NO", "OTHERS"]]

def frame : Rule Unit := do
  let _ ← anyOf ["ROWS", "RANGE", "GROUPS"]
  if ← found (keyword "BETWEEN") then
    g.frameBound
    let _ ← keyword "AND"
    g.frameBound
  else g.frameBound
  let _ ← found frameExclusion
  return

/-- What stands in the parentheses after `OVER` or in a `WINDOW` clause. -/
def windowSpec : Rule WindowSpec := do
  let name ← maybe baseWindow
  let partitionBy ← maybeD [] g.partitionBy
  let orderBy ← maybeD [] g.orderBy
  let frame ← maybe (textOf g.frame)
  return { name, partitionBy, orderBy, frame }

/-- `OVER name` or `OVER (...)`. -/
def window : Rule WindowSpec := do
  let _ ← keyword "OVER"
  match ← maybe ident with
  | some name => return { name := some name, partitionBy := [], orderBy := [], frame := none }
  | none => parens g.windowSpec

/-! ## Calls -/

/-- A name that may be `LEFT` or `RIGHT`, which are reserved but also name functions. -/
def functionName : Rule ObjectName := do
  match ← maybe objectName with
  | some name => return name
  | none =>
    let start ← begin
    let word ← oneOf [("LEFT", "left"), ("RIGHT", "right")]
    return ⟨none, ⟨word.value, false, word.span⟩, ← spanFrom start⟩

/-- The name and arrow of a named argument. -/
def argumentName : Rule Span := do
  let _ ← ident
  symbol "=>"

/-- An argument; `VARIADIC` and the name are dropped. -/
def argument : Rule Expr := do
  let _ ← found (keyword "VARIADIC")
  let _ ← found argumentName
  g.expr

def isDistinct : Rule Bool := do
  match ← maybe (oneOf [("DISTINCT", true), ("ALL", false)]) with
  | some word => return word.value
  | none => return false

def arguments (star : Bool) : Rule (List Expr) :=
  if star then pure [] else maybeD [] (separated "," g.argument)

def withinGroup : Rule (List OrderItem) := do
  let _ ← keywords ["WITHIN", "GROUP"]
  parens g.orderBy

def filter : Rule Expr := do
  let _ ← keyword "FILTER"
  parens do
    let _ ← keyword "WHERE"
    g.expr

/-- `name([DISTINCT] args [ORDER BY ...]) [WITHIN GROUP (...)] [FILTER (...)] [OVER ...]`. -/
def functionCall : Rule FunctionCall := do
  let start ← begin
  let name ← functionName
  let _ ← punct "("
  let distinct ← isDistinct
  let star ← found (punct "*")
  let args ← g.arguments star
  let order ← maybeD [] g.orderBy
  let _ ← punct ")"
  let groupOrder ← maybeD [] g.withinGroup
  let filter ← maybe g.filter
  let window ← maybe g.window
  return {
    name, args, star, distinct, orderBy := order ++ groupOrder, filter, window
    span := ← spanFrom start }

/-! ## Functions with keywords between their arguments -/

/-- An argument after a keyword, if the keyword is there. -/
def argumentAfter (word : String) : Rule (List Expr) := do
  if ← found (keyword word) then return [← g.expr] else return []

/-- `source FROM start FOR length`, where one of the two may be missing. -/
def substringArgs : Rule (List Expr) := do
  let source ← g.expr
  let first ← g.argumentAfter "FROM"
  let second ← g.argumentAfter "FOR"
  match first ++ second with
  | [] => reject
  | rest => return source :: rest

/-- `needle IN haystack`. -/
def positionArgs : Rule (List Expr) := do
  let needle ← g.level symbolLevel
  let _ ← keyword "IN"
  return [needle, ← g.expr]

/-- `target PLACING replacement FROM start [FOR length]`. -/
def overlayArgs : Rule (List Expr) := do
  let target ← g.expr
  let _ ← keyword "PLACING"
  let replacement ← g.expr
  let _ ← keyword "FROM"
  let start ← g.expr
  return target :: replacement :: start :: (← g.argumentAfter "FOR")

def trimName : Rule String := do
  match ← maybe (oneOf [("BOTH", "btrim"), ("LEADING", "ltrim"), ("TRAILING", "rtrim")]) with
  | some side => return side.value
  | none => return "btrim"

/-- `[characters] FROM source`, or `source [, characters]`. -/
def trimArgs : Rule (List Expr) := do
  let first ← maybe g.expr
  if ← found (keyword "FROM") then
    let source ← g.expr
    return source :: first.toList
  else
    match first with
    | none => reject
    | some source => if ← found (punct ",") then return [source, ← g.expr] else return [source]

/-- The name under which a function with keywords is looked up, and its arguments. -/
def keywordArgs (word : String) : Rule (String × List Expr) := do
  match word with
  | "SUBSTRING" => return ("substring", ← g.substringArgs)
  | "POSITION" => return ("position", ← g.positionArgs)
  | "OVERLAY" => return ("overlay", ← g.overlayArgs)
  | _ =>
    let name ← trimName
    return (name, ← g.trimArgs)

def keywordCall : Rule Expr := do
  let start ← begin
  let word ← anyOf ["SUBSTRING", "POSITION", "TRIM", "OVERLAY"]
  let (name, args) ← parens (g.keywordArgs word.value)
  return .function {
    name := ⟨none, ⟨name, false, word.span⟩, word.span⟩
    args, star := false, distinct := false, orderBy := [], filter := none, window := none
    span := ← spanFrom start }

end SqlTyping.Grammar
