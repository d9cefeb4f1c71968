import SqlTyping.Json.Basic
import SqlTyping.SqlType.Basic

/-!
# Types in JSON

A type is written as one object: the name of its form under `type`, the parts of the form,
`nullable`, and `postgres` if the type has a PostgreSQL name.
-/

namespace SqlTyping

mutual

def SqlType.toJson : SqlType → Json
  | ⟨kind, nullable, postgres⟩ =>
    .object (TypeKind.members kind ++ [⟨"nullable", .bool nullable⟩]
      ++ (postgres.map fun name => Field.mk "postgres" (Json.string name)).toList)

/-- The form of a type and its parts, as members of an object. -/
def TypeKind.members : TypeKind SqlType → List (Field Json)
  | .string => [⟨"type", .string "string"⟩]
  | .number => [⟨"type", .string "number"⟩]
  | .bigint => [⟨"type", .string "bigint"⟩]
  | .boolean => [⟨"type", .string "boolean"⟩]
  | .date => [⟨"type", .string "date"⟩]
  | .null => [⟨"type", .string "null"⟩]
  | .json => [⟨"type", .string "json"⟩]
  | .unknown => [⟨"type", .string "unknown"⟩]
  | .any => [⟨"type", .string "any"⟩]
  | .literal value => [⟨"type", .string "literal"⟩, ⟨"value", .string value⟩]
  | .composite name attributes =>
    [⟨"type", .string "composite"⟩, ⟨"name", .string name⟩,
      ⟨"attributes", .array (TypeKind.fieldsToJson attributes)⟩]
  | .array items => [⟨"type", .string "array"⟩, ⟨"items", items.toJson⟩]
  | .union members => [⟨"type", .string "union"⟩, ⟨"items", .array (TypeKind.listToJson members)⟩]
  | .object fields =>
    [⟨"type", .string "objectliteral"⟩, ⟨"items", .array (TypeKind.fieldsToJson fields)⟩]
  | .optional value => [⟨"type", .string "optional"⟩, ⟨"value", value.toJson⟩]

def TypeKind.listToJson : List SqlType → List Json
  | [] => []
  | t :: rest => t.toJson :: TypeKind.listToJson rest

def TypeKind.fieldsToJson : List (Field SqlType) → List Json
  | [] => []
  | f :: rest => TypeKind.fieldToJson f :: TypeKind.fieldsToJson rest

def TypeKind.fieldToJson : Field SqlType → Json
  | ⟨name, value⟩ => .object [⟨"name", .string name⟩, ⟨"type", value.toJson⟩]

end

/-- An object with a name and a type that is read by `read`. -/
def Field.ofJson? (read : Json → Option α) (json : Json) : Option (Field α) := do
  return ⟨← json.require "name" Json.asString?, ← json.require "type" read⟩

/-- The form of a type, whose parts are read by `read`. -/
def TypeKind.ofJson? (read : Json → Option τ) (json : Json) : Option (TypeKind τ) := do
  match ← json.require "type" Json.asString? with
  | "string" => return .string
  | "number" => return .number
  | "bigint" => return .bigint
  | "boolean" => return .boolean
  | "date" => return .date
  | "null" => return .null
  | "json" => return .json
  | "unknown" => return .unknown
  | "any" => return .any
  | "literal" => return .literal (← json.require "value" Json.asString?)
  | "composite" =>
    return .composite (← json.require "name" Json.asString?)
      (← json.require "attributes" (Json.readList (Field.ofJson? read)))
  | "array" => return .array (← json.require "items" read)
  | "union" => return .union (← json.require "items" (Json.readList read))
  | "objectliteral" =>
    return .object (← json.require "items" (Json.readList (Field.ofJson? read)))
  | "optional" => return .optional (← json.require "value" read)
  | _ => none

/-- Reads a type in which at most `n` arrays and objects stand around each other. -/
def SqlType.ofJsonWithin? : (n : Nat) → Json → Option SqlType
  | 0, _ => none
  | n + 1, json => do
    return {
      kind := ← TypeKind.ofJson? (SqlType.ofJsonWithin? n) json
      nullable := ← json.allowD "nullable" Json.asBool? false
      postgres := ← json.allow "postgres" Json.asString? }

def SqlType.ofJson? (json : Json) : Option SqlType := SqlType.ofJsonWithin? (json.depth + 1) json

end SqlTyping
