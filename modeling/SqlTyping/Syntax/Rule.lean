import SqlTyping.Span
import SqlTyping.Syntax.Lexeme
import SqlTyping.Syntax.Mark

/-!
# Grammar rules

A rule reads text from a cursor. It may fail, and what it has done to the cursor stays: the place it
came to, and what was expected at the furthest place where a rule failed, which is where a syntax
error is reported. `attempt` takes a failed rule back to where it started. Terminals do so by
themselves; they skip trivia first.
-/

namespace SqlTyping

/-- The state of a run of the grammar. -/
structure Cursor where
  mark : Mark
  /-- The furthest place at which something was expected in vain. -/
  furthest : Nat := 0
  /-- What was expected there, in order and without repetitions. -/
  expected : List String := []
  /-- Where nesting first went too deep. -/
  tooDeep : Option Nat := none

namespace Cursor

def ofText (text : String) : Cursor := { mark := .start text }

def position (c : Cursor) : Nat := c.mark.offset

/-- Notes that something was expected at `offset`. Only the furthest place counts. -/
def expect (c : Cursor) (offset : Nat) (label : String) : Cursor :=
  if c.furthest < offset then { c with furthest := offset, expected := [label] }
  else if offset == c.furthest && !c.expected.contains label then
    { c with expected := c.expected ++ [label] }
  else c

def atEnd (c : Cursor) : Bool := c.mark.skipTrivia.rest.isEmpty

end Cursor

/-- What rules are told from outside. -/
structure Context where
  /-- Is text accepted that is being typed, such as a list that ends in a comma? -/
  tolerant : Bool := false
  /-- The number of expressions and queries around the current one. -/
  depth : Nat := 0

/-- The deepest nesting of expressions and queries. -/
def maxDepth : Nat := 50

def Rule (α : Type) := Context → Cursor → Option α × Cursor

/-- A value and where it was read. -/
structure Spanned (α : Type) where
  value : α
  span : Span

namespace Rule

def run (rule : Rule α) (tolerant : Bool) (text : String) : Option α × Cursor :=
  rule { tolerant } (.ofText text)

/-- Succeeds without reading. -/
protected def pure (a : α) : Rule α := fun _ c => (some a, c)

protected def bind (rule : Rule α) (next : α → Rule β) : Rule β := fun ctx c =>
  match rule ctx c with
  | (some a, c) => next a ctx c
  | (none, c) => (none, c)

instance : Monad Rule where
  pure := Rule.pure
  bind := Rule.bind

/-! ## Combinators -/

/-- Fails and expects nothing. -/
def reject : Rule α := fun _ c => (none, c)

/-- Fails and expects `label` at the next token. -/
def fail (label : String) : Rule α := fun _ c => (none, c.expect c.mark.skipTrivia.offset label)

/-- Where the cursor is. -/
def position : Rule Nat := fun _ c => (some c.position, c)

/-- Moves to the next token and tells where it starts. -/
def begin : Rule Nat := fun _ c =>
  let mark := c.mark.skipTrivia
  (some mark.offset, { c with mark })

/-- The span from `start` to the end of the last token. -/
def spanFrom (start : Nat) : Rule Span := fun _ c => (some ⟨start, max c.position start⟩, c)

def isTolerant : Rule Bool := fun ctx c => (some ctx.tolerant, c)

def atEnd : Rule Bool := fun _ c => (some c.atEnd, c)

/-- Goes back to the start when the rule fails. -/
def attempt (rule : Rule α) : Rule α := fun ctx c =>
  match rule ctx c with
  | (some a, c) => (some a, c)
  | (none, failed) => (none, { failed with mark := c.mark })

/-- Succeeds in any case; goes back to the start when the rule fails. -/
def maybe (rule : Rule α) : Rule (Option α) := fun ctx c =>
  match rule ctx c with
  | (some a, c) => (some (some a), c)
  | (none, failed) => (some none, { failed with mark := c.mark })

def maybeD (fallback : α) (rule : Rule α) : Rule α := do return (← maybe rule).getD fallback

/-- Reads what the rule reads, if it can. -/
def found (rule : Rule α) : Rule Bool := do return (← maybe rule).isSome

/-- Would the rule succeed here? -/
def peek (rule : Rule α) : Rule Bool := fun ctx c =>
  let (result, after) := rule ctx c
  (some result.isSome, { after with mark := c.mark })

/-- Would the rule succeed here? What it expected is forgotten. -/
def foresee (rule : Rule α) : Rule Bool := fun ctx c => (some (rule ctx c).1.isSome, c)

/-- The first rule that succeeds. -/
def firstOf : List (Rule α) → Rule α
  | [] => reject
  | rule :: rules => do
    match ← maybe rule with
    | some a => pure a
    | none => firstOf rules

/-- The text that was read by the rule, from its first token on. -/
def textOf (rule : Rule α) : Rule String := fun ctx c =>
  let start := c.mark.skipTrivia
  match rule ctx { c with mark := start } with
  | (none, c) => (none, c)
  | (some _, c) =>
    (some (String.ofList (start.rest.take (start.rest.length - c.mark.rest.length))), c)

/-- Runs the rule one level deeper. Past the deepest level it fails, and so does every rule that is
nested after that. -/
def nested (rule : Rule α) : Rule α := fun ctx c =>
  if c.tooDeep.isSome then (none, c)
  else if maxDepth ≤ ctx.depth then
    let mark := c.mark.skipTrivia
    (none, { c with mark, tooDeep := some mark.offset })
  else rule { ctx with depth := ctx.depth + 1 } c

/-- Runs the rule until it gives `none`, but at most once more than `fuel` is long. -/
def manyWithin (rule : Rule (Option α)) : (fuel : List Char) → Rule (List α)
  | [] => do return (← rule).toList
  | _ :: fuel => do
    match ← rule with
    | none => return []
    | some a => return a :: (← manyWithin rule fuel)

/-- Runs the rule until it gives `none`. Since it reads something each time before that, there are
at most as many repetitions as there are characters left. -/
def many (rule : Rule (Option α)) : Rule (List α) := fun ctx c => manyWithin rule c.mark.rest ctx c

/-- Zero or more repetitions. -/
def star (rule : Rule α) : Rule (List α) := many (maybe rule)

/-- One or more repetitions. -/
def plus (rule : Rule α) : Rule (List α) := do
  let first ← attempt rule
  return first :: (← star rule)

def growWithin (step : α → Rule (Option α)) : (fuel : List Char) → α → Rule α
  | [], a => do return (← step a).getD a
  | _ :: fuel, a => do
    match ← step a with
    | none => return a
    | some a => growWithin step fuel a

/-- Replaces a value by the next one until `step` gives `none`. Each step reads something, as in
`many`. -/
def grow (step : α → Rule (Option α)) (a : α) : Rule α := fun ctx c =>
  growWithin step c.mark.rest a ctx c

/-! ## Terminals -/

/-- The lexeme that comes next, which is expected as `label`. -/
def terminal (label : String) (scan : Scanner α) : Rule (Spanned α) := fun _ c =>
  let start := c.mark.skipTrivia
  match scan start.rest with
  | none => (none, c.expect start.offset label)
  | some x =>
    let stop := start.offset + x.size
    (some ⟨x.value, ⟨start.offset, stop⟩⟩, { c with mark := ⟨x.rest, stop⟩ })

def keyword (word : String) : Rule Span := do return (← terminal word (Lexeme.keyword word)).span

/-- Keywords in a row, such as `ORDER BY`. -/
def keywords (words : List String) : Rule Span := attempt do
  let start ← begin
  words.forM fun word => do let _ ← keyword word
  spanFrom start

/-- The first keyword that matches, with the value beside it. -/
def oneOf : List (String × α) → Rule (Spanned α)
  | [] => reject
  | (word, a) :: words => do
    match ← maybe (keyword word) with
    | some span => return ⟨a, span⟩
    | none => oneOf words

/-- One of several keywords. -/
def anyOf (words : List String) : Rule (Spanned String) :=
  oneOf (words.map fun word => (word, word))

/-- Punctuation such as a comma, a dot or a bracket. -/
def punct (mark : String) : Rule Span := do
  return (← terminal mark (Lexeme.punctuation mark)).span

/-- An operator that is allowed here, which is expected as `label`. -/
def operatorWhere (label : String) (allowed : String → Bool) : Rule (Spanned String) := do
  let token : Rule (Spanned String) := do
    let op ← terminal "operator" Lexeme.operator
    if allowed op.value then return op else reject
  match ← maybe token with
  | some op => return op
  | none => fail label

def operator : Rule (Spanned String) := terminal "operator" Lexeme.operator

def symbol (op : String) : Rule Span := do return (← operatorWhere op (· == op)).span

def word : Rule (Spanned String) := terminal "word" Lexeme.word

def number : Rule (Spanned String) := terminal "number" Lexeme.number

def string : Rule (Spanned String) := terminal "string" Lexeme.string

/-- A name, and whether it is quoted. -/
def identifier : Rule (Spanned (String × Bool)) := terminal "identifier" (Lexeme.identifier false)

/-- A name that may be a reserved word. -/
def label : Rule (Spanned (String × Bool)) := terminal "identifier" (Lexeme.identifier true)

def param : Rule (Spanned Lexeme.Param) := terminal "parameter" Lexeme.param

/-- Does a query start here, perhaps in parentheses? -/
def startsQuery : Rule Bool := foresee do
  let _ ← star (punct "(")
  anyOf ["SELECT", "WITH", "VALUES"]

/-- One or more items with a separator between them. A separator at the end is read only in text
that is being typed. -/
def separated (separator : String) (item : Rule α) : Rule (List α) := do
  let next : Rule (Option α) := do
    let _ ← punct separator
    match ← maybe item with
    | some a => return some a
    | none => if ← isTolerant then return none else reject
  let first ← attempt item
  return first :: (← many (do return (← maybe next).join))

/-- What the rule reads, in parentheses. -/
def parens (rule : Rule α) : Rule α := do
  let _ ← punct "("
  let a ← rule
  let _ ← punct ")"
  return a

end Rule

end SqlTyping
