/-!
# Comparing texts

Whether texts are equal, and whether one starts with another or has it inside. Names and keywords
are compared up to case, that is, without regard to the case of ASCII letters; all other characters
must be the same.
-/

namespace SqlTyping.Text

def eqFold (a b : String) : Bool :=
  a.toList.map Char.toLower == b.toList.map Char.toLower

/-- What follows `word` in `cs`, if `cs` starts with it up to case. -/
def afterFold? : (word cs : List Char) → Option (List Char)
  | [], cs => some cs
  | w :: ws, c :: cs => if w.toLower == c.toLower then afterFold? ws cs else none
  | _ :: _, [] => none

/-- What follows `word` in `cs`, if `cs` starts with it. -/
def after? : (word cs : List Char) → Option (List Char)
  | [], cs => some cs
  | w :: ws, c :: cs => if w == c then after? ws cs else none
  | _ :: _, [] => none

/-- Does `word` occur somewhere in the text? -/
def occurs (word : List Char) : List Char → Bool
  | [] => word.isEmpty
  | c :: rest => word.isPrefixOf (c :: rest) || occurs word rest

end SqlTyping.Text
