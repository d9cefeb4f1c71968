import SqlTyping.Span
import SqlTyping.Text.Utf8

/-!
# Lines and columns

Places in a text as people count them: lines and columns start at 1, and columns count characters.
An offset inside a character stands for the start of it, one behind the text for its end.
-/

namespace SqlTyping

structure Place where
  line : Nat
  column : Nat
deriving DecidableEq, Inhabited

namespace Text

/-- The characters after the last line break. -/
def lastLine (cs : List Char) : List Char := (cs.reverse.takeWhile (· != '\n')).reverse

/-- The line that holds the start of the span, and below it a `^` under each character of the span
on that line, at least one. -/
def marker (text : String) (span : Span) : String :=
  let (before, rest) := splitBytes span.start text.toList
  let lineStart := lastLine before
  let lineEnd := rest.takeWhile (· != '\n')
  let marked := (splitBytes (max span.stop span.start - byteSize before) rest).1
  let width := max (min marked.length lineEnd.length) 1
  String.ofList (lineStart ++ lineEnd) ++ "\n"
    ++ String.ofList (List.replicate lineStart.length ' ' ++ List.replicate width '^')

end Text

/-- The place of a byte offset. -/
def Place.ofOffset (text : String) (offset : Nat) : Place :=
  let before := (Text.splitBytes offset text.toList).1
  { line := before.count '\n' + 1, column := (Text.lastLine before).length + 1 }

end SqlTyping
