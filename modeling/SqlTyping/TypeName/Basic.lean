import SqlTyping.Text.Blank
import SqlTyping.Text.Digit
import SqlTyping.Text.Fold
import SqlTyping.Text.Lower

/-!
# Names of PostgreSQL types

`TypeName.read` takes a spelling of a type apart: `Character Varying(20)[]` is the name
`character varying` with one array dimension, `app._Mood` the name `mood` of the schema `app`, also
with one.
-/

namespace SqlTyping

structure TypeName where
  schema : Option String
  name : String
  dimensions : Nat
deriving DecidableEq, Inhabited

namespace TypeName

/-- Where in a spelling `dropModifiers` is. What has been read and may still have to be kept is
reversed. -/
inductive ModifierScan where
  /-- Outside of a modifier, after the given blanks. -/
  | outside (blanks : List Char)
  /-- Inside a modifier; the given text is kept if the modifier is never closed. -/
  | inside (opened : List Char)

/-- The spelling without modifiers such as `(10, 2)` and the blanks in front of them. -/
def dropModifiers : ModifierScan → List Char → List Char
  | .outside blanks, [] => blanks.reverse
  | .inside opened, [] => opened.reverse
  | .outside blanks, c :: rest =>
    if Text.isBlank c then dropModifiers (.outside (c :: blanks)) rest
    else if c == '(' then dropModifiers (.inside (c :: blanks)) rest
    else blanks.reverse ++ c :: dropModifiers (.outside []) rest
  | .inside opened, c :: rest =>
    if c == ')' then dropModifiers (.outside []) rest
    else dropModifiers (.inside (c :: opened)) rest

/-- Where in a list of subscripts `countSubscripts?` is: between two of them, after `[` and blanks,
inside the number, or after blanks that end it. -/
inductive SubscriptScan where
  | between
  | opened
  | digits
  | closing

/-- The number of subscripts in a text that consists of subscripts such as `[]` and `[ 3 ]`. -/
def countSubscripts? : SubscriptScan → List Char → Option Nat
  | .between, [] => some 0
  | _, [] => none
  | .between, c :: rest => if c == '[' then countSubscripts? .opened rest else none
  | .opened, c :: rest =>
    if c == ']' then (countSubscripts? .between rest).map (· + 1)
    else if Text.isBlank c then countSubscripts? .opened rest
    else if Text.isDecimalDigit c then countSubscripts? .digits rest
    else none
  | .digits, c :: rest =>
    if c == ']' then (countSubscripts? .between rest).map (· + 1)
    else if Text.isDecimalDigit c then countSubscripts? .digits rest
    else if Text.isBlank c then countSubscripts? .closing rest
    else none
  | .closing, c :: rest =>
    if c == ']' then (countSubscripts? .between rest).map (· + 1)
    else if Text.isBlank c then countSubscripts? .closing rest
    else none

/-- The number of subscripts in a text that is nothing but blanks and at least one subscript. -/
def subscripts? (cs : List Char) : Option Nat :=
  (countSubscripts? .between (cs.dropWhile Text.isBlank)).bind fun n =>
    if n = 0 then none else some n

/-- Splits a spelling into what stands before its subscripts, and their number. -/
def splitSubscripts : List Char → List Char × Nat
  | [] => ([], 0)
  | c :: rest =>
    match subscripts? (c :: rest) with
    | some n => ([], n)
    | none =>
      let (before, n) := splitSubscripts rest
      (c :: before, n)

/-- The text before the suffix, if the text ends in it. -/
def before? (suffix cs : List Char) : Option (List Char) :=
  (Text.after? suffix.reverse cs.reverse).map List.reverse

/-- The text before and after the first dot, if there is text after it. -/
def splitDot? (cs : List Char) : Option (List Char × List Char) :=
  match cs.dropWhile (· != '.') with
  | _ :: c :: rest => some (cs.takeWhile (· != '.'), c :: rest)
  | _ => none

def stripQuotes (cs : List Char) : String := String.ofList (Text.stripChars (· == '"') cs)

/-- Reads a spelling in lower case with single blanks and without modifiers. -/
def readPlain (text : List Char) : TypeName :=
  let (text, subscripts) := splitSubscripts text
  let (text, dimensions) :=
    match before? " array".toList text with
    | some element => (element, subscripts + 1)
    | none => (text, subscripts)
  let (schema, name) :=
    match splitDot? text with
    | some (schema, name) => (some (stripQuotes schema), name)
    | none => (none, text)
  let (name, dimensions) :=
    match name, dimensions with
    | '_' :: element, 0 => (element, 1)
    | name, dimensions => (name, dimensions)
  { schema := schema.filter (· != "pg_catalog"), name := stripQuotes name, dimensions }

/-- Reads a spelling: letters in lower case, modifiers dropped, blanks joined, array dimensions
counted from subscripts, a final `ARRAY`, or a name that starts with an underscore. The schema
`pg_catalog` is the same as none. -/
def read (spelling : String) : TypeName :=
  let plain := dropModifiers (.outside []) (Text.lower (Text.trim spelling)).toList
  readPlain (Text.joinBlanks (Text.stripChars Text.isBlank plain))

end TypeName

end SqlTyping
