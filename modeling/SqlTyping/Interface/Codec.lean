import SqlTyping.Interface.Basic
import SqlTyping.TypeExpr.Codec

/-!
# Interfaces in JSON
-/

namespace SqlTyping

namespace Param

def toJson (write : τ → Json) (p : Param τ) : Json :=
  .object [⟨"name", .string p.name⟩, ⟨"type", write p.type⟩, ⟨"spans", .ofList Span.toJson p.spans⟩,
    ⟨"required", .bool p.required⟩, ⟨"spread", .bool p.spread⟩, ⟨"pick", .ofList .string p.pick⟩]

def ofJson? (read : Json → Option τ) (json : Json) : Option (Param τ) := do
  return {
    name := ← json.require "name" Json.asString?
    type := ← json.require "type" read
    spans := ← json.require "spans" (Json.readList Span.ofJson?)
    required := ← json.require "required" Json.asBool?
    spread := ← json.require "spread" Json.asBool?
    pick := ← json.require "pick" (Json.readList Json.asString?) }

end Param

namespace ResultColumn

def toJson (c : ResultColumn) : Json :=
  .object [⟨"name", .string c.name⟩, ⟨"type", c.type.toJson⟩, ⟨"span", c.span.toJson⟩]

def ofJson? (json : Json) : Option ResultColumn := do
  return {
    name := ← json.require "name" Json.asString?
    type := ← json.require "type" TypeExpr.ofJson?
    span := ← json.require "span" Span.ofJson? }

end ResultColumn

mutual

def Source.toJson : Source → Json
  | .table schema name asName isResult span =>
    .object [⟨"source", .string "table"⟩, ⟨"schema", .ofOption .string schema⟩,
      ⟨"table", .string name⟩, ⟨"alias", .ofOption .string asName⟩, ⟨"is_result", .bool isResult⟩,
      ⟨"span", span.toJson⟩]
  | .query name q isResult =>
    .object [⟨"source", .string "query"⟩, ⟨"name", .string name⟩, ⟨"query", q.toJson⟩,
      ⟨"is_result", .bool isResult⟩]
  | .values name columns types isResult =>
    .object [⟨"source", .string "values"⟩, ⟨"name", .string name⟩,
      ⟨"columns", .ofOption (Json.ofList .string) columns⟩,
      ⟨"types", .ofList TypeExpr.toJson types⟩, ⟨"is_result", .bool isResult⟩]

def Interface.toJson : Interface → Json
  | ⟨sources, params, results, nullableSources⟩ =>
    .object ([⟨"sources", .array (Source.listToJson sources)⟩,
      ⟨"params", .ofList (Param.toJson TypeExpr.toJson) params⟩,
      ⟨"results", .ofList ResultColumn.toJson results⟩]
      ++ if nullableSources.isEmpty then []
        else [⟨"nullable_sources", .ofList .string nullableSources⟩])

def Source.listToJson : List Source → List Json
  | [] => []
  | source :: rest => source.toJson :: Source.listToJson rest

end

/-- A source whose query is read by `read`. -/
def Source.ofJsonWith? (read : Json → Option Interface) (json : Json) : Option Source := do
  let text (name : String) := json.require name Json.asString?
  let isResult := json.require "is_result" Json.asBool?
  match ← text "source" with
  | "table" =>
    return .table (← json.allow "schema" Json.asString?) (← text "table")
      (← json.allow "alias" Json.asString?) (← isResult) (← json.require "span" Span.ofJson?)
  | "query" => return .query (← text "name") (← json.require "query" read) (← isResult)
  | "values" =>
    return .values (← text "name") (← json.allow "columns" (Json.readList Json.asString?))
      (← json.require "types" (Json.readList TypeExpr.ofJson?)) (← isResult)
  | _ => none

/-- Reads an interface in which at most `n` arrays and objects stand around each other. -/
def Interface.ofJsonWithin? : (n : Nat) → Json → Option Interface
  | 0, _ => none
  | n + 1, json => do
    return {
      sources := ← json.require "sources" (Json.readList (Source.ofJsonWith? (ofJsonWithin? n)))
      params := ← json.require "params" (Json.readList (Param.ofJson? TypeExpr.ofJson?))
      results := ← json.require "results" (Json.readList ResultColumn.ofJson?)
      nullableSources := ← json.allowD "nullable_sources" (Json.readList Json.asString?) [] }

def Interface.ofJson? (json : Json) : Option Interface :=
  Interface.ofJsonWithin? (json.depth + 1) json

def Source.ofJson? (json : Json) : Option Source := Source.ofJsonWith? Interface.ofJson? json

namespace TypedInterface

def resultToJson (r : Field SqlType) : Json :=
  .object [⟨"name", .string r.name⟩, ⟨"type", r.value.toJson⟩]

def toJson (q : TypedInterface) : Json :=
  .object [⟨"params", .ofList (Param.toJson SqlType.toJson) q.params⟩,
    ⟨"results", .ofList resultToJson q.results⟩]

def ofJson? (json : Json) : Option TypedInterface := do
  return {
    params := ← json.require "params" (Json.readList (Param.ofJson? SqlType.ofJson?))
    results := ← json.require "results" (Json.readList (Field.ofJson? SqlType.ofJson?)) }

end TypedInterface

end SqlTyping
