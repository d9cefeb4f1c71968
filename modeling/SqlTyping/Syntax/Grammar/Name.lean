import SqlTyping.Syntax.Rule
import SqlTyping.Syntax.Tree

/-!
# Names, parameters and types
-/

namespace SqlTyping.Grammar

open Rule

def identOf (token : Spanned (String × Bool)) : Ident :=
  ⟨token.value.1, token.value.2, token.span⟩

def ident : Rule Ident := do return identOf (← identifier)

/-- A name that may be a reserved word, as after a dot or `AS`. -/
def label : Rule Ident := do return identOf (← Rule.label)

/-- A dot and a name after it. -/
def dotted (name : Rule Ident) : Rule Ident := do
  let _ ← punct "."
  name

/-- `name`, `schema.name`, or `catalog.schema.name`, of which the catalog is dropped. -/
def objectName : Rule ObjectName := do
  let start ← begin
  let first ← ident
  match ← star (dotted label) with
  | [] => return ⟨none, first, ← spanFrom start⟩
  | [second] => return ⟨some first, second, ← spanFrom start⟩
  | [second, third] => return ⟨some second, third, ← spanFrom start⟩
  | _ => fail "object name"

/-- `(a, b, c)`. -/
def identList : Rule (List Ident) := parens (separated "," ident)

/-- A parameter; only one that is spread has a list of fields. -/
def paramRef : Rule ParamRef := do
  let token ← param
  let pick ← if token.value.spread then maybeD [] identList else pure []
  return {
    name := token.value.name, required := token.value.required, spread := token.value.spread, pick
    span := ← spanFrom token.span.start }

/-- `AS name`, or a name that is not reserved. -/
def asName : Rule Ident := do if ← found (keyword "AS") then label else ident

/-! ## Types -/

/-- The rest of a name of two words. -/
def secondWord (name : String) : Rule String := do
  match name with
  | "double" => if ← found (keyword "PRECISION") then return "double precision" else return name
  | "character" | "char" =>
    if ← found (keyword "VARYING") then return "character varying" else return name
  | "bit" => if ← found (keyword "VARYING") then return "bit varying" else return name
  | _ => return name

/-- Modifiers of a type, such as `(10, 2)`. -/
def modifiers : Rule (List String) := parens <| separated "," do
  match ← maybe number with
  | some token => return token.value
  | none => return (← ident).value

def timeZone (name : String) : Rule String := do
  if name == "timestamp" || name == "time" then
    if ← found (keywords ["WITH", "TIME", "ZONE"]) then return name ++ " with time zone"
    else if ← found (keywords ["WITHOUT", "TIME", "ZONE"]) then return name ++ " without time zone"
    else return name
  else return name

/-- `[]` or `[3]`. -/
def dimension : Rule Span := do
  let _ ← punct "["
  let _ ← found number
  punct "]"

/-- `ARRAY` or `ARRAY[3]` after a type. -/
def arrayKeyword : Rule Nat := do
  if ← found (keyword "ARRAY") then
    let _ ← found dimension
    return 1
  else return 0

def dataType : Rule DataType := do
  let start ← begin
  let first ← ident
  let second ← maybe (dotted ident)
  let schema := second.map fun _ => first.value
  let name ← secondWord (second.getD first).value
  let modifiers ← maybeD [] modifiers
  let name ← timeZone name
  let subscripts ← star dimension
  let more ← arrayKeyword
  let dimensions := subscripts.length + more
  return { schema, name, modifiers, dimensions, span := ← spanFrom start }

end SqlTyping.Grammar
