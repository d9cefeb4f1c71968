import SqlTyping.Text.Blank

/-!
# Places in a text

A mark is a place in SQL text: what is left of the text, and the byte offset of that. Between tokens
stands trivia, that is, blanks, line comments and block comments; block comments nest, and one that
is never closed extends to the end of the text.
-/

namespace SqlTyping

structure Mark where
  rest : List Char
  offset : Nat
deriving DecidableEq, Inhabited

/-- Where in a stretch of trivia a place is. -/
inductive Trivia where
  | between
  | lineComment
  /-- In a block comment, with the number of block comments around it. -/
  | blockComment (outer : Nat)

namespace Mark

def start (text : String) : Mark := ⟨text.toList, 0⟩

/-- The first place that is not in trivia. -/
def skipFrom : Trivia → (offset : Nat) → (rest : List Char) → Mark
  | _, n, [] => ⟨[], n⟩
  | .between, n, '-' :: '-' :: rest => skipFrom .lineComment (n + 2) rest
  | .between, n, '/' :: '*' :: rest => skipFrom (.blockComment 0) (n + 2) rest
  | .between, n, c :: rest =>
    if Text.isSpace c then skipFrom .between (n + c.utf8Size) rest else ⟨c :: rest, n⟩
  | .lineComment, n, c :: rest =>
    skipFrom (if c == '\n' then .between else .lineComment) (n + c.utf8Size) rest
  | .blockComment outer, n, '/' :: '*' :: rest => skipFrom (.blockComment (outer + 1)) (n + 2) rest
  | .blockComment 0, n, '*' :: '/' :: rest => skipFrom .between (n + 2) rest
  | .blockComment (outer + 1), n, '*' :: '/' :: rest => skipFrom (.blockComment outer) (n + 2) rest
  | .blockComment outer, n, c :: rest => skipFrom (.blockComment outer) (n + c.utf8Size) rest

/-- The start of the next token. -/
def skipTrivia (m : Mark) : Mark := skipFrom .between m.offset m.rest

end Mark

end SqlTyping
