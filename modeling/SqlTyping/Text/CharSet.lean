/-!
# Sets of characters

A set of characters as a list of ranges of code points, ends included.
-/

namespace SqlTyping

abbrev CharSet := List (Nat × Nat)

namespace CharSet

def contains (set : CharSet) (c : Char) : Bool :=
  set.any fun range => range.1 ≤ c.toNat && c.toNat ≤ range.2

/-- The ranges from `start` on, each by the number of code points left out before it and the number
of its own. -/
def ofRuns (start : Nat) : List Nat → CharSet
  | skipped :: size :: rest =>
    let first := start + skipped
    (first, first + size - 1) :: ofRuns (first + size) rest
  | _ => []

/-- The numbers that digits to the base 16 stand for. A digit holds three bits of a number, the lowest
ones first, and is 8 or more if the number goes on; `value` is what came before, and `unit` what one
is worth in the next digit. -/
def ofDigits (unit value : Nat) : List Nat → List Nat
  | [] => []
  | d :: rest =>
    if d < 8 then (value + d * unit) :: ofDigits 1 0 rest
    else ofDigits (8 * unit) (value + (d - 8) * unit) rest

/-- The numbers that are written in lines of 90 digits. -/
def unpack (lines : List Nat) : List Nat :=
  ofDigits 1 0 (lines.flatMap fun line => (List.range 90).map fun i => line / Nat.pow 16 (89 - i) % 16)

end CharSet

end SqlTyping
