import SqlTyping.Diagnostic.Basic
import SqlTyping.Span.Codec

/-!
# Diagnostics in JSON
-/

namespace SqlTyping

namespace Location

def toJson (l : Location) : Json :=
  .object [⟨"line", .nat l.start.line⟩, ⟨"column", .nat l.start.column⟩,
    ⟨"end_line", .nat l.stop.line⟩, ⟨"end_column", .nat l.stop.column⟩]

def ofJson? (json : Json) : Option Location := do
  let number (name : String) := json.require name Json.asNat?
  return ⟨⟨← number "line", ← number "column"⟩, ⟨← number "end_line", ← number "end_column"⟩⟩

end Location

namespace Diagnostic

def toJson (d : Diagnostic) : Json :=
  .object [⟨"code", .string d.code.name⟩, ⟨"severity", .string d.severity.name⟩,
    ⟨"message", .string d.message⟩, ⟨"span", .ofOption Span.toJson d.span⟩,
    ⟨"location", .ofOption Location.toJson d.location⟩,
    ⟨"candidates", .ofList .string d.candidates⟩]

def ofJson? (json : Json) : Option Diagnostic := do
  return {
    code := ← json.require "code" (·.asString?.bind ErrorCode.ofName?)
    severity := ← json.require "severity" (·.asString?.bind Severity.ofName?)
    message := ← json.require "message" Json.asString?
    span := ← json.allow "span" Span.ofJson?
    location := ← json.allow "location" Location.ofJson?
    candidates := ← json.require "candidates" (Json.readList Json.asString?) }

end Diagnostic

end SqlTyping
