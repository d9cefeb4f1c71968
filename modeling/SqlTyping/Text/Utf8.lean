/-!
# Byte offsets

Texts are lists of characters; offsets into a text count the bytes of its UTF-8 form. An offset is a
boundary when it lies between two characters, or at an end.
-/

namespace SqlTyping.Text

/-- The number of bytes of a text. -/
def byteSize : List Char → Nat
  | [] => 0
  | c :: cs => c.utf8Size + byteSize cs

/-- The text from the boundary `offset` on; `none` if that is inside a character or too far. -/
def dropBytes? : (offset : Nat) → List Char → Option (List Char)
  | 0, cs => some cs
  | _ + 1, [] => none
  | n + 1, c :: cs => if c.utf8Size ≤ n + 1 then dropBytes? (n + 1 - c.utf8Size) cs else none

/-- The text up to the boundary `offset`; `none` if that is inside a character or too far. -/
def takeBytes? : (offset : Nat) → List Char → Option (List Char)
  | 0, _ => some []
  | _ + 1, [] => none
  | n + 1, c :: cs =>
    if c.utf8Size ≤ n + 1 then (takeBytes? (n + 1 - c.utf8Size) cs).map (c :: ·) else none

/-- The text between two boundaries; `none` if they are not in order. -/
def slice? (start stop : Nat) (cs : List Char) : Option (List Char) :=
  if start ≤ stop then (dropBytes? start cs).bind (takeBytes? (stop - start)) else none

/-- The characters of a text that end at or before `offset`, and the others. -/
def splitBytes : (offset : Nat) → List Char → List Char × List Char
  | _, [] => ([], [])
  | n, c :: cs =>
    if c.utf8Size ≤ n then
      let (before, rest) := splitBytes (n - c.utf8Size) cs
      (c :: before, rest)
    else ([], c :: cs)

end SqlTyping.Text
