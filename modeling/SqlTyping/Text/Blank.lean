/-!
# Blanks

The blank characters of the Unicode standard (property `White_Space`), and what is done with a text
by them. Positions in SQL text use the narrower `isSpace`, the blanks of ASCII.
-/

namespace SqlTyping.Text

def isBlank (c : Char) : Bool :=
  let n := c.toNat
  (9 ≤ n && n ≤ 13) || n == 0x20 || n == 0x85 || n == 0xA0 || n == 0x1680
    || (0x2000 ≤ n && n ≤ 0x200A) || n == 0x2028 || n == 0x2029 || n == 0x202F || n == 0x205F
    || n == 0x3000

/-- Space, tab, line feed, form feed or carriage return. -/
def isSpace (c : Char) : Bool :=
  c == ' ' || c == '\t' || c == '\n' || c == '\x0c' || c == '\r'

/-- The text without the characters in `drop` at either end. -/
def stripChars (drop : Char → Bool) (cs : List Char) : List Char :=
  ((cs.dropWhile drop).reverse.dropWhile drop).reverse

/-- The text without blanks at either end. -/
def trim (text : String) : String := String.ofList (stripChars isBlank text.toList)

/-- The first run of characters that are not blank, if there is one. -/
def firstWord? (cs : List Char) : Option (List Char) :=
  match (cs.dropWhile isBlank).takeWhile (!isBlank ·) with
  | [] => none
  | word => some word

/-- The same characters with every run of blanks replaced by one space. -/
def joinBlanks : List Char → List Char
  | [] => []
  | c :: rest =>
    if isBlank c then
      match rest with
      | d :: _ => if isBlank d then joinBlanks rest else ' ' :: joinBlanks rest
      | [] => [' ']
    else c :: joinBlanks rest

end SqlTyping.Text
