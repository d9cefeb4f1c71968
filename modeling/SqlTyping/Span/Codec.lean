import SqlTyping.Json.Basic
import SqlTyping.Span

/-!
# Spans in JSON
-/

namespace SqlTyping.Span

def toJson (s : Span) : Json := .object [⟨"start", .nat s.start⟩, ⟨"end", .nat s.stop⟩]

def ofJson? (json : Json) : Option Span := do
  return ⟨← json.require "start" Json.asNat?, ← json.require "end" Json.asNat?⟩

end SqlTyping.Span
