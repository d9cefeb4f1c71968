import SqlTyping.Text.Blank
import SqlTyping.Text.Fold
import SqlTyping.Text.Lower
import SqlTyping.Text.Utf8

/-!
# Lexemes

Scanners for the smallest parts of SQL text. A scanner looks at the start of a text; what it finds
is split off as a `Lexeme`, which keeps the text it was read from and what follows.
-/

namespace SqlTyping

structure Lexeme (α : Type) where
  value : α
  text : List Char
  rest : List Char

abbrev Scanner (α : Type) := List Char → Option (Lexeme α)

namespace Lexeme

def map (f : α → β) (x : Lexeme α) : Lexeme β := ⟨f x.value, x.text, x.rest⟩

/-- The lexeme that starts with `text` and goes on as `x` does. -/
def after (text : List Char) (x : Lexeme α) : Lexeme α := { x with text := text ++ x.text }

/-- The length in bytes. -/
def size (x : Lexeme α) : Nat := Text.byteSize x.text

/-! ## Words -/

def isWordStart (c : Char) : Bool := c.isAlpha || c == '_' || 0x80 ≤ c.toNat

def isWordChar (c : Char) : Bool := c.isAlphanum || c == '_' || c == '$' || 0x80 ≤ c.toNat

/-- A keyword in any case, and not the start of a longer word. -/
def keyword (word : String) : Scanner Unit := fun cs =>
  match Text.afterFold? word.toList cs with
  | none => none
  | some rest => if rest.head?.any isWordChar then none else some ⟨(), cs.take word.length, rest⟩

/-- A word as written. -/
def word : Scanner String := fun cs =>
  if cs.head?.any isWordStart then
    let text := cs.takeWhile isWordChar
    some ⟨String.ofList text, text, cs.dropWhile isWordChar⟩
  else none

/-- Words that are neither a name nor an alias unless they are quoted. -/
def reservedWords : List String := [
  "ALL", "AND", "ANY", "ARRAY", "AS", "ASC", "ASYMMETRIC", "BETWEEN", "BOTH", "CASE", "CAST",
  "CHECK", "COLLATE", "COLUMN", "CONSTRAINT", "CREATE", "CROSS", "CURRENT_DATE", "CURRENT_TIME",
  "CURRENT_TIMESTAMP", "CURRENT_USER", "DEFAULT", "DEFERRABLE", "DESC", "DISTINCT", "DO", "ELSE",
  "END", "EXCEPT", "EXISTS", "FALSE", "FETCH", "FILTER", "FOR", "FOREIGN", "FROM", "FULL", "GRANT",
  "GROUP", "HAVING", "ILIKE", "IN", "INNER", "INTERSECT", "INTO", "IS", "ISNULL", "JOIN", "LATERAL",
  "LEADING", "LEFT", "LIKE", "LIMIT", "LOCALTIME", "LOCALTIMESTAMP", "NATURAL", "NOT", "NOTNULL",
  "NULL", "OFFSET", "ON", "ONLY", "OR", "ORDER", "OUTER", "OVER", "PLACING", "PRIMARY",
  "REFERENCES", "RETURNING", "RIGHT", "SELECT", "SESSION_USER", "SIMILAR", "SOME", "SYMMETRIC",
  "TABLE", "THEN", "TO", "TRAILING", "TRUE", "UNION", "UNIQUE", "USER", "USING", "VALUES",
  "VARIADIC", "WHEN", "WHERE", "WINDOW", "WITH"]

/-- Is the word reserved, in whatever case it is written? -/
def isReserved (word : String) : Bool := reservedWords.contains (word.map Char.toUpper)

/-! ## Punctuation and operators -/

/-- May punctuation end here? A colon must not be the start of `::`, nor a dot of a number. -/
def endsPunctuation (mark : String) (rest : List Char) : Bool :=
  match mark with
  | ":" => !rest.head?.any (· == ':')
  | "." => !rest.head?.any Char.isDigit
  | _ => true

def punctuation (mark : String) : Scanner Unit := fun cs =>
  match Text.after? mark.toList cs with
  | none => none
  | some rest => if endsPunctuation mark rest then some ⟨(), mark.toList, rest⟩ else none

def isOperatorChar (c : Char) : Bool := "+-*/<>=~!@#%^&|`?".toList.contains c

/-- Characters that let an operator end in a sign. -/
def allowsFinalSign (c : Char) : Bool := "~!@#%^&|`?".toList.contains c

def startsComment : List Char → Bool
  | '-' :: '-' :: _ | '/' :: '*' :: _ => true
  | _ => false

/-- The operator characters up to the next comment. -/
def operatorRun : List Char → List Char
  | [] => []
  | c :: rest =>
    if isOperatorChar c && !startsComment (c :: rest) then c :: operatorRun rest else []

/-- The run without signs at its end; a sign that stands alone stays. -/
def dropSigns : List Char → List Char
  | [] => []
  | c :: rest => c :: (rest.reverse.dropWhile fun d => d == '+' || d == '-').reverse

/-- The longest operator at the start of the text. Only an operator with one of the characters of
`allowsFinalSign` ends in a sign, so that `a=-1` is a comparison with `-1`. `!=` is read as `<>`. -/
def operator : Scanner String := fun cs =>
  match operatorRun cs with
  | [] => none
  | run =>
    let text := if run.any allowsFinalSign then run else dropSigns run
    let symbol := String.ofList text
    some ⟨if symbol == "!=" then "<>" else symbol, text, cs.drop text.length⟩

/-! ## Quoted text -/

/-- What a backslash and the given character stand for. -/
def escaped : Char → Char
  | 'n' => '\n'
  | 't' => '\t'
  | 'r' => '\r'
  | 'b' => '\x08'
  | 'f' => '\x0c'
  | c => c

/-- Text up to the closing quote, where a quote is written twice. -/
def quoted (quote : Char) (escapes : Bool) : Scanner (List Char)
  | [] => none
  | c :: rest =>
    if c == quote then
      match rest with
      | [] => some ⟨[], [c], []⟩
      | d :: rest =>
        if d == quote then (quoted quote escapes rest).map fun x => (x.map (c :: ·)).after [c, d]
        else some ⟨[], [c], d :: rest⟩
    else if escapes && c == '\\' then
      match rest with
      | [] => none
      | d :: rest => (quoted quote escapes rest).map fun x => (x.map (escaped d :: ·)).after [c, d]
    else (quoted quote escapes rest).map fun x => (x.map (c :: ·)).after [c]

/-- A string: `'it''s'`, or `E'a\nb'` with escapes. -/
def string : Scanner String
  | c :: rest =>
    if c == '\'' then (quoted '\'' false rest).map fun x => (x.map String.ofList).after [c]
    else
      match rest with
      | d :: rest =>
        if (c == 'e' || c == 'E') && d == '\'' then
          (quoted '\'' true rest).map fun x => (x.map String.ofList).after [c, d]
        else none
      | [] => none
  | [] => none

/-! ## Identifiers -/

def quotedIdentifier : Scanner String
  | c :: rest =>
    if c == '"' then (quoted '"' false rest).map fun x => (x.map String.ofList).after [c] else none
  | [] => none

/-- A word, in lower case. -/
def unquotedIdentifier (reserved : Bool) : Scanner String := fun cs =>
  match word cs with
  | none => none
  | some x => if isReserved x.value && !reserved then none else some (x.map Text.lower)

/-- An identifier, and whether it is quoted. A reserved word counts only where `reserved` says so.
-/
def identifier (reserved : Bool) : Scanner (String × Bool) := fun cs =>
  match quotedIdentifier cs with
  | some x => some (x.map (·, true))
  | none => (unquotedIdentifier reserved cs).map fun x => x.map (·, false)

/-! ## Numbers -/

/-- A point and digits; two points are no fraction. -/
def fraction : List Char → List Char
  | '.' :: '.' :: _ => []
  | '.' :: rest => '.' :: rest.takeWhile Char.isDigit
  | _ => []

/-- `e`, an optional sign, and digits. -/
def exponent : List Char → List Char
  | [] => []
  | e :: rest =>
    if e == 'e' || e == 'E' then
      let sign := rest.take 1 |>.filter fun c => c == '+' || c == '-'
      match (rest.drop sign.length).takeWhile Char.isDigit with
      | [] => []
      | digits => e :: sign ++ digits
    else []

/-- A numeral such as `42`, `3.14`, `.5` or `1e-3`, not followed by a word. -/
def number : Scanner String := fun cs =>
  let whole := cs.takeWhile Char.isDigit
  let decimal := whole ++ fraction (cs.drop whole.length)
  let text := decimal ++ exponent (cs.drop decimal.length)
  let rest := cs.drop text.length
  if decimal.any Char.isDigit && !rest.head?.any isWordStart then
    some ⟨String.ofList text, text, rest⟩
  else none

/-! ## Parameters -/

/-- A parameter without its list of fields. -/
structure Param where
  name : String
  spread : Bool
  required : Bool

def isParamChar (c : Char) : Bool := c.isAlphanum || c == '_'

/-- The name of a parameter, and the `!` of a required one, which is not the start of `!=`. -/
def paramName (spread : Bool) (sigil : List Char) : Scanner Param := fun cs =>
  if cs.head?.any isWordStart then
    let name := cs.takeWhile isParamChar
    match cs.dropWhile isParamChar with
    | '!' :: rest =>
      if rest.head?.any (· == '=') then
        some ⟨⟨String.ofList name, spread, false⟩, sigil ++ name, '!' :: rest⟩
      else some ⟨⟨String.ofList name, spread, true⟩, sigil ++ name ++ ['!'], rest⟩
    | rest => some ⟨⟨String.ofList name, spread, false⟩, sigil ++ name, rest⟩
  else none

/-- `$name`, `$name!` or `$$name`. -/
def param : Scanner Param
  | '$' :: '$' :: rest => paramName true ['$', '$'] rest
  | '$' :: rest => paramName false ['$'] rest
  | _ => none

end Lexeme

end SqlTyping
