import SqlTyping.Text.Fold
import SqlTyping.Toml.Basic
import SqlTyping.Toml.Quoted

/-!
# Reading TOML

`Toml.read?` gives the value of a document, which is a table, or nothing if the text is no TOML
document.
-/

namespace SqlTyping

/-- Reads from a text; nothing is left of a text that does not fit. -/
abbrev TomlReader := StateT (List Char) Option

namespace TomlReader

/-! ## Characters -/

def rest : TomlReader (List Char) := get

def peek : TomlReader (Option Char) := return (← get).head?

/-- What a scan finds at the start of the text. -/
def scan (f : List Char → Option (α × List Char)) : TomlReader α := fun cs => f cs

def mark (c : Char) : TomlReader Unit := fun
  | d :: rest => if d == c then some ((), rest) else none
  | [] => none

def blanks : TomlReader Unit := modify (List.dropWhile TomlQuoted.isBlank)

/-- The end of a line, or of the text. -/
def lineEnd : TomlReader Unit := fun
  | [] => some ((), [])
  | '\n' :: rest | '\r' :: '\n' :: rest => some ((), rest)
  | _ => none

/-- The rest of a line, which may have a comment. -/
def restOfLine : TomlReader Unit := do
  blanks
  if (← peek) == some '#' then modify (List.dropWhile TomlQuoted.isText)
  lineEnd

/-- Blanks, comments and line ends. A comment ends with its line. -/
def skipLines : (comment : Bool) → List Char → Option (List Char)
  | false, [] => some []
  | true, [] => none
  | comment, c :: rest =>
    if TomlQuoted.startsNewline (c :: rest) then
      if c == '\r' then skipLines comment rest else skipLines false rest
    else if comment then if TomlQuoted.isText c then skipLines true rest else none
    else if c == '#' then skipLines true rest
    else if TomlQuoted.isBlank c then skipLines false rest
    else some (c :: rest)

def lines : TomlReader Unit := fun cs => (skipLines false cs).map ((), ·)

/-! ## Keys -/

def isBareKey (c : Char) : Bool := c.isAlphanum || c == '_' || c == '-'

/-- A bare or quoted key. -/
def simpleKey : TomlReader String := fun cs =>
  match TomlQuoted.readLine? cs with
  | some (text, rest) => some (String.ofList text, rest)
  | none =>
    match cs.takeWhile isBareKey with
    | [] => none
    | key => some (String.ofList key, cs.dropWhile isBareKey)

/-- How deep keys and values may be nested. -/
def maxDepth : Nat := 80

/-- A key and the path before it. There are at most `n` more parts. -/
def keyWithin : (n : Nat) → TomlReader (List String × String)
  | 0 => failure
  | n + 1 => do
    blanks
    let first ← simpleKey
    blanks
    if (← peek) == some '.' then
      mark '.'
      let (path, key) ← keyWithin n
      return (first :: path, key)
    else return ([], first)

def key : TomlReader (List String × String) := keyWithin (maxDepth - 1)

/-! ## Values -/

/-- The items of an array up to the closing bracket; the last may be followed by a comma. -/
def arrayItems (value : TomlReader Toml) : (n : Nat) → TomlReader (List Toml)
  | 0 => failure
  | n + 1 => do
    lines
    if (← peek) == some ']' then
      mark ']'
      return []
    let item ← value
    lines
    if (← peek) == some ',' then
      mark ','
      return item :: (← arrayItems value n)
    mark ']'
    return [item]

/-- The entries of an inline table up to the closing brace. -/
def inlineEntries (value : TomlReader Toml) : (n : Nat) → TomlTable → TomlReader TomlTable
  | 0, _ => failure
  | n + 1, t => do
    let (path, name) ← key
    mark '='
    blanks
    let item ← value
    blanks
    let t ← (t.put? path name item : Option TomlTable)
    if (← peek) == some ',' then
      mark ','
      inlineEntries value n t
    else
      mark '\x7d'
      return t

def inlineTable (value : TomlReader Toml) : TomlReader Toml := do
  blanks
  if (← peek) == some '\x7d' then
    mark '\x7d'
    return .table []
  return (← inlineEntries value (← rest).length .empty).toToml

def word (text : String) (value : Toml) : TomlReader Toml := fun cs =>
  (Text.after? text.toList cs).map (value, ·)

/-- A value that holds no others. -/
def plainValue : TomlReader Toml := do
  match ← peek with
  | some '"' | some '\'' => return .string (String.ofList (← scan TomlQuoted.read?))
  | some 't' => word "true" (.boolean true)
  | some 'f' => word "false" (.boolean false)
  | _ => scan fun cs => (TomlScalar.after? cs).map (.scalar, ·)

/-- A value with at most `n` arrays and inline tables in each other. -/
def valueWithin : (n : Nat) → TomlReader Toml
  | 0 => plainValue
  | n + 1 => do
    match ← peek with
    | some '[' =>
      mark '['
      return .array (← arrayItems (valueWithin n) (← rest).length)
    | some '\x7b' =>
      mark '\x7b'
      inlineTable (valueWithin n)
    | _ => plainValue

def value : TomlReader Toml := valueWithin (maxDepth - 1)

/-! ## Lines -/

def header : TomlReader TomlLine := do
  mark '['
  if (← peek) == some '[' then
    mark '['
    let (path, name) ← key
    mark ']'
    mark ']'
    restOfLine
    return .arrayHeader path name
  else
    let (path, name) ← key
    mark ']'
    restOfLine
    return .header path name

def entry : TomlReader TomlLine := do
  let (path, name) ← key
  mark '='
  blanks
  let item ← value
  restOfLine
  return .entry path name item

/-- All lines up to the end of the text. Every line takes a character, of which there are fewer than
`n`. -/
def document : (n : Nat) → TomlReader (List TomlLine)
  | 0 => failure
  | n + 1 => do
    blanks
    match ← peek with
    | none => return []
    | some '#' | some '\n' | some '\r' =>
      restOfLine
      document n
    | some '[' => return (← header) :: (← document n)
    | some _ => return (← entry) :: (← document n)

end TomlReader

/-- The value of a document. A byte order mark at the start of the text is passed over. -/
def Toml.read? (text : String) : Option Toml := do
  let cs := text.toList
  let cs := if cs.head?.any (· == '\uFEFF') then cs.tail else cs
  let (lines, _) ← (TomlReader.document (cs.length + 1)).run cs
  Toml.ofLines? lines

end SqlTyping
