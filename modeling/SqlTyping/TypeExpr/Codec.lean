import SqlTyping.Span.Codec
import SqlTyping.SqlType.Codec
import SqlTyping.TypeExpr.Basic

/-!
# Waiting types in JSON

A known type is written as `{"type": ...}`, any other as `{"load": ...}` with the name of its form
under `load` and its parts beside it.
-/

namespace SqlTyping

def Overload.toJson (v : Overload) : Json :=
  .object [⟨"left", v.left.toJson⟩, ⟨"right", v.right.toJson⟩, ⟨"result", v.result.toJson⟩]

def Overload.ofJson? (json : Json) : Option Overload := do
  return ⟨← json.require "left" SqlType.ofJson?, ← json.require "right" SqlType.ofJson?,
    ← json.require "result" SqlType.ofJson?⟩

def OperatorPart.name : OperatorPart → String
  | .left => "left"
  | .right => "right"
  | .result => "result"

def OperatorPart.ofJson? (json : Json) : Option OperatorPart :=
  json.asString?.bind fun name =>
    [OperatorPart.left, .right, .result].find? (·.name == name)

namespace TypeExpr

/-- An object for a form of a type that waits. -/
def loadJson (form : String) (parts : List (Field Json)) : Json :=
  .object [⟨"load", .object (⟨"load", .string form⟩ :: parts)⟩]

def nameJson (name : Option String) : Json := .ofOption .string name

mutual

def toJson : TypeExpr → Json
  | .known t => .object [⟨"type", t.toJson⟩]
  | .column schema table name span =>
    loadJson "column" [⟨"schema", nameJson schema⟩, ⟨"table", nameJson table⟩,
      ⟨"column", .string name⟩, ⟨"span", span.toJson⟩]
  | .record schema name span =>
    loadJson "record" [⟨"schema", nameJson schema⟩, ⟨"name", .string name⟩, ⟨"span", span.toJson⟩]
  | .function schema name args span =>
    loadJson "function" [⟨"schema", nameJson schema⟩, ⟨"name", .string name⟩,
      ⟨"args", .array (listToJson args)⟩, ⟨"span", span.toJson⟩]
  | .functionArgument schema name args index span =>
    loadJson "function_argument" [⟨"schema", nameJson schema⟩, ⟨"name", .string name⟩,
      ⟨"args", .array (listToJson args)⟩, ⟨"index", .nat index⟩, ⟨"span", span.toJson⟩]
  | .operator symbol left right available part span =>
    loadJson "operator" [⟨"op", .string symbol⟩, ⟨"left", left.toJson⟩, ⟨"right", right.toJson⟩,
      ⟨"available", .ofList Overload.toJson available⟩, ⟨"part", .string part.name⟩,
      ⟨"span", span.toJson⟩]
  | .named schema name nullable span =>
    loadJson "named" [⟨"schema", nameJson schema⟩, ⟨"name", .string name⟩,
      ⟨"nullable", .bool nullable⟩, ⟨"span", span.toJson⟩]
  | .array items nullable =>
    loadJson "array" [⟨"items", items.toJson⟩, ⟨"nullable", .bool nullable⟩]
  | .arrayItem value => loadJson "array_item" [⟨"value", value.toJson⟩]
  | .fieldAccess value name span =>
    loadJson "composite_access"
      [⟨"value", value.toJson⟩, ⟨"name", .string name⟩, ⟨"span", span.toJson⟩]
  | .union items => loadJson "union" [⟨"items", .array (listToJson items)⟩]
  | .object fields nullable =>
    loadJson "object_literal"
      [⟨"items", .array (fieldsToJson fields)⟩, ⟨"nullable", .bool nullable⟩]
  | .optional value => loadJson "optional" [⟨"value", value.toJson⟩]
  | .star schema table span =>
    loadJson "star"
      [⟨"schema", nameJson schema⟩, ⟨"table", nameJson table⟩, ⟨"span", span.toJson⟩]
  | .cast source value =>
    loadJson "column_cast" [⟨"column", source.toJson⟩, ⟨"value", value.toJson⟩]
  | .coalesce items => loadJson "coalesce" [⟨"items", .array (listToJson items)⟩]
  | .asArray value nullable =>
    loadJson "as_array" [⟨"value", value.toJson⟩, ⟨"nullable", .bool nullable⟩]

def listToJson : List TypeExpr → List Json
  | [] => []
  | t :: rest => t.toJson :: listToJson rest

def fieldsToJson : List (Field TypeExpr) → List Json
  | [] => []
  | f :: rest => fieldToJson f :: fieldsToJson rest

def fieldToJson : Field TypeExpr → Json
  | ⟨name, value⟩ => .object [⟨"name", .string name⟩, ⟨"type", value.toJson⟩]

end

/-- A type that waits, whose parts are read by `read`. -/
def loadOfJson? (read : Json → Option TypeExpr) (json : Json) : Option TypeExpr := do
  let text (name : String) := json.require name Json.asString?
  let name? (name : String) := json.allow name Json.asString?
  let flag (name : String) := json.require name Json.asBool?
  let part (name : String) := json.require name read
  let parts (name : String) := json.require name (Json.readList read)
  let span := json.require "span" Span.ofJson?
  match ← text "load" with
  | "column" => return .column (← name? "schema") (← name? "table") (← text "column") (← span)
  | "record" => return .record (← name? "schema") (← text "name") (← span)
  | "function" => return .function (← name? "schema") (← text "name") (← parts "args") (← span)
  | "function_argument" =>
    return .functionArgument (← name? "schema") (← text "name") (← parts "args")
      (← json.require "index" Json.asNat?) (← span)
  | "operator" =>
    return .operator (← text "op") (← part "left") (← part "right")
      (← json.require "available" (Json.readList Overload.ofJson?))
      (← json.require "part" OperatorPart.ofJson?) (← span)
  | "named" => return .named (← name? "schema") (← text "name") (← flag "nullable") (← span)
  | "array" => return .array (← part "items") (← flag "nullable")
  | "array_item" => return .arrayItem (← part "value")
  | "composite_access" => return .fieldAccess (← part "value") (← text "name") (← span)
  | "union" => return .union (← parts "items")
  | "object_literal" =>
    return .object (← json.require "items" (Json.readList (Field.ofJson? read))) (← flag "nullable")
  | "optional" => return .optional (← part "value")
  | "star" => return .star (← name? "schema") (← name? "table") (← span)
  | "column_cast" => return .cast (← part "column") (← part "value")
  | "coalesce" => return .coalesce (← parts "items")
  | "as_array" => return .asArray (← part "value") (← flag "nullable")
  | _ => none

/-- Reads a type in which at most `n` arrays and objects stand around each other. -/
def ofJsonWithin? : (n : Nat) → Json → Option TypeExpr
  | 0, _ => none
  | n + 1, json =>
    match json with
    | .object [⟨"type", t⟩] => (SqlType.ofJson? t).map .known
    | .object [⟨"load", t⟩] => loadOfJson? (ofJsonWithin? n) t
    | _ => none

def ofJson? (json : Json) : Option TypeExpr := ofJsonWithin? (json.depth + 1) json

end TypeExpr

end SqlTyping
