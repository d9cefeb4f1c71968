import SqlTyping.Catalog.Requests
import SqlTyping.Json.Basic

/-!
# The catalog in JSON
-/

namespace SqlTyping

namespace QualifiedName

def toJson (n : QualifiedName) : Json :=
  .object [⟨"schema", .ofOption .string n.schema⟩, ⟨"name", .string n.name⟩]

def ofJson? (json : Json) : Option QualifiedName := do
  return ⟨← json.allow "schema" Json.asString?, ← json.require "name" Json.asString?⟩

end QualifiedName

namespace RecordKey

def toJson (k : RecordKey) : Json :=
  .object [⟨"kind", .string k.kind.name⟩, ⟨"name", k.name.toJson⟩]

def ofJson? (json : Json) : Option RecordKey := do
  return ⟨← json.require "kind" (·.asString?.bind RecordKind.ofName?),
    ← json.require "name" QualifiedName.ofJson?⟩

end RecordKey

namespace Requests

def toJson (r : Requests) : Json :=
  .object [⟨"tables", .ofList QualifiedName.toJson r.tables⟩,
    ⟨"functions", .ofList QualifiedName.toJson r.functions⟩,
    ⟨"enums", .ofList QualifiedName.toJson r.enums⟩,
    ⟨"composites", .ofList QualifiedName.toJson r.composites⟩]

def ofJson? (json : Json) : Option Requests := do
  let names (kind : String) := json.require kind (Json.readList QualifiedName.ofJson?)
  return ⟨← names "tables", ← names "functions", ← names "enums", ← names "composites"⟩

end Requests

namespace Column

def toJson (c : Column) : Json :=
  .object [⟨"name", .string c.name⟩, ⟨"nullable", .bool c.nullable⟩, ⟨"pg_type", .string c.pgType⟩,
    ⟨"comment", .ofOption .string c.comment⟩]

def ofJson? (json : Json) : Option Column := do
  return {
    name := ← json.require "name" Json.asString?
    nullable := ← json.require "nullable" Json.asBool?
    pgType := ← json.require "pg_type" Json.asString?
    comment := ← json.allow "comment" Json.asString? }

end Column

namespace Attribute

def toJson (a : Attribute) : Json :=
  .object [⟨"name", .string a.name⟩, ⟨"pg_type", .string a.pgType⟩, ⟨"nullable", .bool a.nullable⟩]

def ofJson? (json : Json) : Option Attribute := do
  return {
    name := ← json.require "name" Json.asString?
    pgType := ← json.require "pg_type" Json.asString?
    nullable := ← json.require "nullable" Json.asBool? }

end Attribute

namespace CatalogRecord

def toJson : CatalogRecord → Json
  | .table name columns =>
    .object [⟨"kind", .string "table"⟩, ⟨"name", name.toJson⟩,
      ⟨"columns", .ofList Column.toJson columns⟩]
  | .view name source columns =>
    .object [⟨"kind", .string "view"⟩, ⟨"name", name.toJson⟩, ⟨"source", .string source⟩,
      ⟨"columns", .ofList Column.toJson columns⟩]
  | .enum name variants =>
    .object [⟨"kind", .string "enum"⟩, ⟨"name", name.toJson⟩,
      ⟨"variants", .ofList .string variants⟩]
  | .composite name attributes =>
    .object [⟨"kind", .string "composite"⟩, ⟨"name", name.toJson⟩,
      ⟨"attributes", .ofList Attribute.toJson attributes⟩]
  | .function name args returns isAggregate =>
    .object [⟨"kind", .string "function"⟩, ⟨"name", name.toJson⟩, ⟨"args", .ofList .string args⟩,
      ⟨"returns", .string returns⟩, ⟨"is_aggregate", .bool isAggregate⟩]

def ofJson? (json : Json) : Option CatalogRecord := do
  let name := json.require "name" QualifiedName.ofJson?
  let texts (field : String) := json.require field (Json.readList Json.asString?)
  let columns := json.require "columns" (Json.readList Column.ofJson?)
  match ← json.require "kind" Json.asString? with
  | "table" => return .table (← name) (← columns)
  | "view" => return .view (← name) (← json.require "source" Json.asString?) (← columns)
  | "enum" => return .enum (← name) (← texts "variants")
  | "composite" =>
    return .composite (← name) (← json.require "attributes" (Json.readList Attribute.ofJson?))
  | "function" =>
    return .function (← name) (← texts "args") (← json.require "returns" Json.asString?)
      (← json.require "is_aggregate" Json.asBool?)
  | _ => none

end CatalogRecord

end SqlTyping
