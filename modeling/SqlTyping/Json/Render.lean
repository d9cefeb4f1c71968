import SqlTyping.Json.Basic
import SqlTyping.Text.Quoted

/-!
# JSON as text

Objects and arrays are written over several lines, indented by two blanks a level; empty ones are
not broken.
-/

namespace SqlTyping

/-- The decimal with all its digits and no exponent. -/
def Decimal.render (d : Decimal) : String :=
  if d.exponent = 0 then toString d.mantissa
  else
    let digits := Nat.toDigits 10 d.mantissa.natAbs
    let padded := List.replicate (d.exponent + 1 - digits.length) '0' ++ digits
    let whole := padded.length - d.exponent
    (if d.mantissa < 0 then "-" else "") ++ String.ofList (padded.take whole) ++ "."
      ++ String.ofList (padded.drop whole)

namespace Json

/-- How a character is written in a string. -/
def renderChar : Char → String
  | '"' => "\\\""
  | '\\' => "\\\\"
  | '\n' => "\\n"
  | '\r' => "\\r"
  | '\t' => "\\t"
  | '\x08' => "\\b"
  | '\x0c' => "\\f"
  | c => if c.toNat < 0x20 then "\\u" ++ Text.hex 4 c.toNat else c.toString

def renderString (text : String) : String :=
  "\"" ++ String.join (text.toList.map renderChar) ++ "\""

/-- Parts between brackets, each on a line of its own. -/
def renderBlock (opening closing indent : String) : List String → String
  | [] => opening ++ closing
  | parts =>
    opening ++ ",".intercalate (parts.map fun part => "\n" ++ indent ++ "  " ++ part) ++ "\n"
      ++ indent ++ closing

mutual

/-- The value as text, where its first line is indented by `indent`. -/
def renderIn (indent : String) : Json → String
  | .null => "null"
  | .bool true => "true"
  | .bool false => "false"
  | .number d => d.render
  | .string s => renderString s
  | .array items => renderBlock "[" "]" indent (renderItems (indent ++ "  ") items)
  | .object members => renderBlock "\x7b" "\x7d" indent (renderMembers (indent ++ "  ") members)

def renderItems (indent : String) : List Json → List String
  | [] => []
  | item :: rest => renderIn indent item :: renderItems indent rest

def renderMembers (indent : String) : List (Field Json) → List String
  | [] => []
  | m :: rest => renderMember indent m :: renderMembers indent rest

def renderMember (indent : String) : Field Json → String
  | ⟨name, value⟩ => renderString name ++ ": " ++ renderIn indent value

end

def render (json : Json) : String := renderIn "" json

end Json

end SqlTyping
