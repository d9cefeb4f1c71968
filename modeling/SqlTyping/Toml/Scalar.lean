/-!
# TOML numbers and dates

`TomlScalar.after?` gives what follows a number or a date at the start of a text. Nothing else is
kept of it, but it has to be one that TOML allows.
-/

namespace SqlTyping.TomlScalar

/-- What is left of a text after something at its start. -/
abbrev Scan := List Char → Option (List Char)

/-! ## Digits -/

def isHexDigit (c : Char) : Bool := c.isDigit || ('a' ≤ c && c ≤ 'f') || ('A' ≤ c && c ≤ 'F')

def digitValue (c : Char) : Nat :=
  if c.isDigit then c.toNat - '0'.toNat else c.toLower.toNat - 'a'.toNat + 10

/-- Digits with single underscores between them, without these, and what follows. -/
def underscored (isDigit : Char → Bool) : List Char → List Char × List Char
  | [] => ([], [])
  | c :: rest =>
    if isDigit c then
      let (digits, rest) := underscored isDigit rest
      (c :: digits, rest)
    else if c == '_' && rest.head?.any isDigit then underscored isDigit rest
    else ([], c :: rest)

/-- At least one digit. -/
def digits? (isDigit : Char → Bool) (cs : List Char) : Option (List Char × List Char) :=
  if cs.head?.any isDigit then some (underscored isDigit cs) else none

def natOf (base : Nat) (digits : List Char) : Nat :=
  digits.foldl (fun n c => n * base + digitValue c) 0

/-! ## Numbers -/

/-- `true` for a minus. -/
def sign : List Char → Bool × List Char
  | '-' :: rest => (true, rest)
  | '+' :: rest => (false, rest)
  | cs => (false, cs)

/-- Decimal digits without a leading zero. -/
def whole? : List Char → Option (List Char × List Char)
  | '0' :: rest => some (['0'], rest)
  | cs => digits? Char.isDigit cs

def fraction? : List Char → Option (List Char × List Char)
  | '.' :: rest => digits? Char.isDigit rest
  | _ => none

def exponent? : List Char → Option (Int × List Char)
  | [] => none
  | e :: rest =>
    if e == 'e' || e == 'E' then
      let (negative, rest) := sign rest
      (digits? Char.isDigit rest).map fun (digits, rest) =>
        let n : Int := natOf 10 digits
        (if negative then -n else n, rest)
    else none

/-- Is `mantissa * 10 ^ exponent` too large for a double? Half a unit above the largest is. -/
def overflows (mantissa : Nat) (exponent : Int) : Bool :=
  let limit := Nat.pow 2 1024 - Nat.pow 2 970
  let size : Int := (Nat.toDigits 10 mantissa).length + exponent
  if mantissa == 0 || size < 300 then false
  else if 320 < size then true
  else if 0 ≤ exponent then limit ≤ mantissa * Nat.pow 10 exponent.toNat
  else limit * Nat.pow 10 exponent.natAbs ≤ mantissa

/-- A numeral with a fraction or an exponent. -/
def float? : Scan := fun cs => do
  let (negative, rest) := sign cs
  let (digits, rest) ← whole? rest
  let (decimals, afterFraction) := (fraction? rest).getD ([], rest)
  let (exponent, afterExponent) := (exponent? afterFraction).getD (0, afterFraction)
  let mantissa := natOf 10 (digits ++ decimals)
  if afterExponent.length == rest.length then none
  else if !negative && overflows mantissa (exponent - decimals.length) then none
  else some afterExponent

def special? : Scan := fun cs =>
  match (sign cs).2 with
  | 'i' :: 'n' :: 'f' :: rest | 'n' :: 'a' :: 'n' :: rest => some rest
  | _ => none

/-- Digits to a base, as a number that fits 63 bits. -/
def radix? (base : Nat) (isDigit : Char → Bool) : Scan := fun cs => do
  let (digits, rest) ← digits? isDigit cs
  if natOf base digits < 0x8000000000000000 then some rest else none

def integer? : Scan
  | '0' :: 'x' :: rest => radix? 16 isHexDigit rest
  | '0' :: 'o' :: rest => radix? 8 (fun c => '0' ≤ c && c ≤ '7') rest
  | '0' :: 'b' :: rest => radix? 2 (fun c => c == '0' || c == '1') rest
  | cs => do
    let (negative, rest) := sign cs
    let (digits, rest) ← whole? rest
    if natOf 10 digits < 0x8000000000000000 + negative.toNat then some rest else none

/-! ## Dates and times -/

/-- Exactly `n` digits as a number. -/
def fixed? (n : Nat) (cs : List Char) : Option (Nat × List Char) :=
  let digits := cs.take n
  if digits.length == n && digits.all Char.isDigit then some (natOf 10 digits, cs.drop n) else none

/-- Exactly two digits, as a number between two bounds. -/
def pair? (low high : Nat) (cs : List Char) : Option (Nat × List Char) :=
  match fixed? 2 cs with
  | some (n, rest) => if low ≤ n && n ≤ high then some (n, rest) else none
  | none => none

def mark? (mark : Char) : Scan
  | c :: rest => if c == mark then some rest else none
  | [] => none

def isLeapYear (year : Nat) : Bool :=
  year % 4 == 0 && (year % 100 != 0 || year % 400 == 0)

def daysIn (year month : Nat) : Nat :=
  if month == 2 then (if isLeapYear year then 29 else 28)
  else if [4, 6, 9, 11].contains month then 30
  else 31

def date? : Scan := fun cs => do
  let (year, rest) ← fixed? 4 cs
  let (month, rest) ← pair? 1 12 (← mark? '-' rest)
  let (_, rest) ← pair? 1 (daysIn year month) (← mark? '-' rest)
  some rest

/-- Hours, minutes, seconds, which may be a leap second, and an optional fraction. -/
def time? : Scan := fun cs => do
  let (_, rest) ← pair? 0 23 cs
  let (_, rest) ← pair? 0 59 (← mark? ':' rest)
  let (_, rest) ← pair? 0 60 (← mark? ':' rest)
  match rest with
  | '.' :: fraction =>
    if fraction.head?.any Char.isDigit then some (fraction.dropWhile Char.isDigit) else some rest
  | _ => some rest

def offset? : Scan
  | 'Z' :: rest | 'z' :: rest => some rest
  | c :: rest =>
    if c == '+' || c == '-' then do
      let (_, rest) ← pair? 0 23 rest
      let (_, rest) ← pair? 0 59 (← mark? ':' rest)
      some rest
    else none
  | [] => none

/-- A date, with a time and an offset if there are any, or a time alone. -/
def dateTime? : Scan := fun cs =>
  match date? cs with
  | none => time? cs
  | some rest =>
    match rest with
    | c :: more =>
      if c == 'T' || c == 't' || c == ' ' then
        match time? more with
        | some rest => some ((offset? rest).getD rest)
        | none => some rest
      else some rest
    | [] => some rest

def after? : Scan := fun cs => dateTime? cs <|> float? cs <|> special? cs <|> integer? cs

end SqlTyping.TomlScalar
