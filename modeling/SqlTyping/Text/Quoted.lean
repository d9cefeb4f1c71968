import SqlTyping.Text.Printable

/-!
# Quoted text

A text in double quotes that shows every character it has.
-/

namespace SqlTyping.Text

/-- The digits of a number to the base 16, at least `width` of them. -/
def hex (width n : Nat) : String :=
  let digits := Nat.toDigits 16 n
  String.ofList (List.replicate (width - digits.length) '0' ++ digits)

/-- How a character is shown between quotes. -/
def quoteChar : Char → String
  | '"' => "\\\""
  | '\\' => "\\\\"
  | '\n' => "\\n"
  | '\r' => "\\r"
  | '\t' => "\\t"
  | '\x00' => "\\0"
  | c => if isPrintable c then c.toString else "\\u\x7b" ++ hex 1 c.toNat ++ "\x7d"

def quote (text : String) : String := "\"" ++ String.join (text.toList.map quoteChar) ++ "\""

/-- A list of quoted texts. -/
def quoteList (texts : List String) : String := "[" ++ ", ".intercalate (texts.map quote) ++ "]"

end SqlTyping.Text
