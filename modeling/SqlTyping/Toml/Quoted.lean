import SqlTyping.Text.Quoted
import SqlTyping.Toml.Scalar

/-!
# TOML strings

A basic string has escapes, a literal string has none; each can stand on one line or, between three
quotes, on several. `TomlQuoted.read?` reads a string; `TomlQuoted.write` writes one in the plainest
form that can hold it.
-/

namespace SqlTyping.TomlQuoted

/-- A string and what follows it. -/
abbrev Scan := List Char → Option (List Char × List Char)

def isBlank (c : Char) : Bool := c == ' ' || c == '\t'

/-- Characters that can stand in a line. -/
def isText (c : Char) : Bool := c == '\t' || (0x20 ≤ c.toNat && c.toNat != 0x7F)

/-- The text starts with a character that belongs to a string. -/
def cons (c : Char) (x : Option (List Char × List Char)) : Option (List Char × List Char) :=
  x.map fun (text, rest) => (c :: text, rest)

/-! ## Reading -/

/-- What a backslash and one character stand for. -/
def escape? : Char → Option Char
  | 'b' => some '\x08'
  | 't' => some '\t'
  | 'n' => some '\n'
  | 'f' => some '\x0c'
  | 'r' => some '\r'
  | '"' => some '"'
  | '\\' => some '\\'
  | _ => none

/-- The character with a code in hexadecimal digits. -/
def charOfHex? (digits : List Char) : Option Char :=
  if digits.all TomlScalar.isHexDigit then
    let n := TomlScalar.natOf 16 digits
    if n.isValidChar then some (Char.ofNat n) else none
  else none

/-- A character after a backslash, and how many characters it takes. -/
def escaped? : List Char → Option (Char × Nat)
  | 'u' :: rest =>
    if (rest.take 4).length == 4 then (charOfHex? (rest.take 4)).map (·, 5) else none
  | 'U' :: rest =>
    if (rest.take 8).length == 8 then (charOfHex? (rest.take 8)).map (·, 9) else none
  | c :: _ => (escape? c).map (·, 1)
  | [] => none

def startsNewline : List Char → Bool
  | '\n' :: _ | '\r' :: '\n' :: _ => true
  | _ => false

/-- Up to the closing quote. The first `skip` characters have been read. -/
def basic? : (skip : Nat) → Scan
  | _, [] => none
  | skip + 1, _ :: rest => basic? skip rest
  | 0, c :: rest =>
    if c == '"' then some ([], rest)
    else if c == '\\' then (escaped? rest).bind fun (d, size) => cons d (basic? size rest)
    else if isText c then cons c (basic? 0 rest)
    else none

def literal? : Scan
  | [] => none
  | c :: rest =>
    if c == '\'' then some ([], rest)
    else if isText c then cons c (literal? rest)
    else none

/-- The end of a string of several lines: three quotes, with up to two more that belong to it. -/
def closing? (quote : Char) (cs : List Char) : Option (List Char × List Char) :=
  let quotes := (cs.take 5).takeWhile (· == quote)
  if 3 ≤ quotes.length then some (quotes.drop 3, cs.drop quotes.length) else none

/-- What is being passed over in a string of several lines. -/
inductive Skip where
  | nothing
  /-- The rest of an escape. -/
  | chars (n : Nat)
  /-- Blanks and line ends after a backslash at the end of a line. -/
  | lines

/-- Up to three closing quotes. A backslash at the end of a line takes away all blanks and line ends
that follow. A line end is always one character. -/
def multiBasic? : Skip → Scan
  | _, [] => none
  | .chars (n + 1), _ :: rest => multiBasic? (.chars n) rest
  | skip, c :: rest =>
    if skip matches .lines && (isBlank c || startsNewline (c :: rest)) then multiBasic? .lines rest
    else if c == '"' then
      match closing? '"' (c :: rest) with
      | some found => some found
      | none => cons c (multiBasic? .nothing rest)
    else if c == '\\' then
      if startsNewline (rest.dropWhile isBlank) then multiBasic? .lines rest
      else (escaped? rest).bind fun (d, size) => cons d (multiBasic? (.chars size) rest)
    else if c == '\r' then
      if rest.head?.any (· == '\n') then multiBasic? .nothing rest else none
    else if c == '\n' || isText c then cons c (multiBasic? .nothing rest)
    else none

def multiLiteral? : Scan
  | [] => none
  | c :: rest =>
    if c == '\'' then
      match closing? '\'' (c :: rest) with
      | some found => some found
      | none => cons c (multiLiteral? rest)
    else if c == '\r' then if rest.head?.any (· == '\n') then multiLiteral? rest else none
    else if c == '\n' || isText c then cons c (multiLiteral? rest)
    else none

/-- Without a line end at the start. -/
def dropNewline : List Char → List Char
  | '\n' :: rest | '\r' :: '\n' :: rest => rest
  | cs => cs

/-- A string on one line, such as a key can be. -/
def readLine? : Scan
  | '"' :: rest => basic? 0 rest
  | '\'' :: rest => literal? rest
  | _ => none

def read? : Scan
  | '"' :: '"' :: '"' :: rest => multiBasic? .nothing (dropNewline rest)
  | '\'' :: '\'' :: '\'' :: rest => multiLiteral? (dropNewline rest)
  | cs => readLine? cs

/-! ## Writing -/

/-- Control characters but for tabs and line ends can only be written as escapes. -/
def needsEscape (c : Char) : Bool :=
  c != '\t' && c != '\n' && (c.toNat < 0x20 || c.toNat == 0x7F)

/-- The length of the longest run of `c`, where `run` of them stand before the text. -/
def longestRun (c : Char) : (run : Nat) → List Char → Nat
  | run, [] => run
  | run, d :: rest => if d == c then longestRun c (run + 1) rest else max run (longestRun c 0 rest)

/-- How a character is written in a basic string. -/
def escapeChar : Char → String
  | '\x08' => "\\b"
  | '\t' => "\\t"
  | '\n' => "\\n"
  | '\x0c' => "\\f"
  | '\r' => "\\r"
  | '"' => "\\\""
  | '\\' => "\\\\"
  | c => if needsEscape c then "\\u" ++ (Text.hex 4 c.toNat).map Char.toUpper else c.toString

/-- The text of a basic string of several lines, after `quotes` quotes. Two quotes in a row can
stay. -/
def escapeLines : (quotes : Nat) → List Char → List String
  | _, [] => []
  | quotes, c :: rest =>
    if c == '"' then
      if quotes < 2 then "\"" :: escapeLines (quotes + 1) rest else "\\\"" :: escapeLines 0 rest
    else (if c == '\n' then "\n" else escapeChar c) :: escapeLines 0 rest

/-- Text between quotes. Several lines start on a line of their own. -/
def enclose (quotes text : String) (lines : Bool) : String :=
  quotes ++ (if lines then "\n" else "") ++ text ++ quotes

/-- The first of the four forms that takes no escapes for quotes, backslashes and line ends, or else
the form with escapes. -/
def write (text : String) : String :=
  let cs := text.toList
  let control := cs.any needsEscape
  let backslash := cs.contains '\\'
  let lines := cs.contains '\n'
  let double := longestRun '"' 0 cs
  let single := longestRun '\'' 0 cs
  let basicText := String.join (cs.map escapeChar)
  let linesText := String.join (escapeLines 0 cs)
  if !control && !backslash && double == 0 && !lines then enclose "\"" basicText false
  else if !control && single == 0 && !lines then enclose "'" text false
  else if !control && !backslash && double ≤ 2 then enclose "\"\"\"" linesText lines
  else if !control && single ≤ 2 then enclose "'''" text lines
  else if lines then enclose "\"\"\"" linesText lines
  else enclose "\"" basicText false

end SqlTyping.TomlQuoted
