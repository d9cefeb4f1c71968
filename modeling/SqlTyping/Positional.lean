import SqlTyping.Interface.Param
import SqlTyping.Json.Basic
import SqlTyping.Syntax.Lexeme
import SqlTyping.Syntax.Mark
import SqlTyping.Text.Quoted

/-!
# Positional placeholders

PostgreSQL takes parameters by number. `positional` puts `$1`, `$2` and so on in place of the named
parameters of a text and lays the values out in that order. All occurrences of a name share their
placeholders. A spread parameter becomes a list of placeholders, or a list of rows if fields are
picked from its elements.
-/

namespace SqlTyping

inductive TemplateError where
  | missingValue (name : String)
  | requiredNull (name : String)
  | notAnArray (name : String)
  | emptySpread (name : String)
  /-- An element that fields are picked from is no object. -/
  | notAnObject (name : String) (index : Nat) (fields : List String)
  /-- A span that is not in the text, or overlaps with the one before. -/
  | invalidSpan (name : String) (span : Span)
  /-- A parameter of the text that no span covers. -/
  | unbound (name : String) (position : Nat)
deriving DecidableEq, Inhabited

def TemplateError.message : TemplateError → String
  | .missingValue name => "Missing value for parameter $" ++ name
  | .requiredNull name => "Parameter $" ++ name ++ " is required but got null"
  | .notAnArray name => "Spread parameter $$" ++ name ++ " expects an array"
  | .emptySpread name => "Spread parameter $$" ++ name ++ " is empty"
  | .notAnObject name index fields =>
    "Element " ++ toString index ++ " of $$" ++ name ++ " must be an object with fields "
      ++ Text.quoteList fields
  | .invalidSpan name span =>
    "Parameter $" ++ name ++ " has a span outside the SQL text (Span \x7b start: "
      ++ toString span.start ++ ", end: " ++ toString span.stop ++ " \x7d)"
  | .unbound name position =>
    "Parameter $" ++ name ++ " at " ++ toString position ++ " has no value binding"

/-! ## Placeholders of one parameter -/

/-- The text that stands for a parameter, and its values. -/
structure Placeholders where
  text : String
  values : List Json

def placeholder (n : Nat) : String := "$" ++ toString n

/-- As many placeholders as there are values, after the first `used`, in parentheses. -/
def placeholderTuple (used : Nat) (values : List Json) : String :=
  "(" ++ ",".intercalate ((List.range values.length).map fun i => placeholder (used + i + 1)) ++ ")"

/-- A tuple of placeholders for each row. -/
def placeholderRows (used : Nat) : (rows : List (List Json)) → List String
  | [] => []
  | row :: rest => placeholderTuple used row :: placeholderRows (used + row.length) rest

/-- The picked fields of an element; a field that it does not have is null. -/
def pickFields (fields : List String) (item : Json) : Option (List Json) :=
  match item with
  | .object _ => some (fields.map fun field => (item.member? field).getD .null)
  | _ => none

/-- The picked fields of all elements, of which the first has the given index. -/
def pickRows (name : String) (fields : List String) :
    (index : Nat) → (items : List Json) → Except TemplateError (List (List Json))
  | _, [] => .ok []
  | index, item :: rest =>
    match pickFields fields item with
    | none => .error (.notAnObject name index fields)
    | some row => do return row :: (← pickRows name fields (index + 1) rest)

namespace Param

/-- The elements of a spread parameter: one placeholder each, or one row each if fields are picked.
-/
def spreadPlaceholders (p : Param τ) (items : List Json) (used : Nat) :
    Except TemplateError Placeholders :=
  if items.isEmpty then .error (.emptySpread p.name)
  else if p.pick.isEmpty then
    if p.required && items.any Json.isNull then .error (.requiredNull p.name)
    else .ok ⟨placeholderTuple used items, items⟩
  else do
    let rows ← pickRows p.name p.pick 0 items
    return ⟨",".intercalate (placeholderRows used rows), rows.flatten⟩

/-- The placeholders for a parameter when the first `used` are taken. -/
def placeholders (p : Param τ) (values : Json) (used : Nat) : Except TemplateError Placeholders :=
  match values.member? p.name with
  | none => .error (.missingValue p.name)
  | some value =>
    if p.spread then
      match value.asArray? with
      | none => .error (.notAnArray p.name)
      | some items => p.spreadPlaceholders items used
    else if p.required && value.isNull then .error (.requiredNull p.name)
    else .ok ⟨placeholder (used + 1), [value]⟩

end Param

/-! ## Parameters of the text -/

/-- One place where a parameter stands. -/
structure Occurrence (τ : Type) where
  span : Span
  param : Param τ

/-- All occurrences in the order of the text. -/
def occurrences (params : List (Param τ)) : List (Occurrence τ) :=
  (params.flatMap fun p => p.spans.map (⟨·, p⟩)).mergeSort fun a b => a.span.start ≤ b.span.start

/-- What is left of a text after a string, an identifier or a numeral. -/
def skipToken? (cs : List Char) : Option (List Char × Nat) :=
  ((Lexeme.string cs).map fun x => (x.rest, x.size))
    <|> ((Lexeme.identifier true cs).map fun x => (x.rest, x.size))
    <|> ((Lexeme.number cs).map fun x => (x.rest, x.size))

/-- The first parameter from `m` on, outside of strings, identifiers and comments, that does not
start at one of the offsets, and its offset. Every step takes a character, of which there are at
most `fuel`. -/
def unboundFrom (starts : List Nat) : (fuel : Nat) → (m : Mark) → Option (String × Nat)
  | 0, _ => none
  | fuel + 1, m =>
    let m := m.skipTrivia
    match m.rest with
    | [] => none
    | c :: rest =>
      match skipToken? m.rest with
      | some (rest, size) => unboundFrom starts fuel ⟨rest, m.offset + size⟩
      | none =>
        match Lexeme.param m.rest with
        | some x =>
          if starts.contains m.offset then unboundFrom starts fuel ⟨x.rest, m.offset + x.size⟩
          else some (x.value.name, m.offset)
        | none => unboundFrom starts fuel ⟨rest, m.offset + c.utf8Size⟩

/-! ## The text with placeholders -/

structure PositionalQuery where
  text : String
  /-- The values of `$1`, `$2` and so on. -/
  values : List Json

/-- Puts placeholders in place of the occurrences, where the text has been copied up to `last`,
`rendered` has the placeholders of names so far, and `used` their values. -/
def spliceFrom (cs : List Char) (values : Json) :
    (last : Nat) → (rendered : List (String × String)) → (used : List Json) →
    List (Occurrence τ) → Except TemplateError PositionalQuery
  | last, _, used, [] =>
    match Text.dropBytes? last cs with
    | none => .error (.invalidSpan "" ⟨last, Text.byteSize cs⟩)
    | some rest => .ok ⟨String.ofList rest, used⟩
  | last, rendered, used, o :: rest =>
    match Text.slice? last o.span.start cs with
    | none => .error (.invalidSpan o.param.name o.span)
    | some gap => do
      let (text, rendered, used) ← match rendered.lookup o.param.name with
        | some text => pure (text, rendered, used)
        | none => do
          let new ← o.param.placeholders values used.length
          pure (new.text, (o.param.name, new.text) :: rendered, used ++ new.values)
      let tail ← spliceFrom cs values o.span.stop rendered used rest
      return { tail with text := String.ofList gap ++ text ++ tail.text }

/-- The text with positional placeholders. `values` is an object with the values by name. Every
parameter of the text has to be covered by a span. -/
def positional (text : String) (params : List (Param τ)) (values : Json) :
    Except TemplateError PositionalQuery :=
  let found := occurrences params
  let starts := found.map (·.span.start)
  match unboundFrom starts (text.length + 1) (Mark.start text) with
  | some (name, position) => .error (.unbound name position)
  | none => spliceFrom text.toList values 0 [] [] found

end SqlTyping
