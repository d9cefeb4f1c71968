import SqlTyping.Proofs.Params.Scope
import SqlTyping.Proofs.Syntax.Fold

/-!
# Tables that a statement mentions

A name after `FROM` stands for a query of a `WITH` clause if one of that name is in scope there, and
otherwise for a table of the catalog. Which of both it is can be seen from the tree alone: the named
queries in scope are those defined before in the same `WITH` clause or in one of a query around, and
a recursive query itself.
-/

namespace SqlTyping

/-! ## Tables of an interface -/

/-- A table or view of the catalog as it is used somewhere in a text. -/
structure TableUse where
  schema : Option String
  name : String
  span : Span
deriving DecidableEq

mutual

/-- The tables of a source at any depth. -/
def Source.tables : Source → List TableUse
  | .table schema name _ _ span => [⟨schema, name, span⟩]
  | .query _ q _ => q.tables
  | .values .. => []

def Interface.tables : Interface → List TableUse
  | ⟨sources, _, _, _⟩ => Source.listTables sources

def Source.listTables : List Source → List TableUse
  | [] => []
  | source :: rest => source.tables ++ Source.listTables rest

end

/-! ## Tables of a tree -/

/-- The names of queries in scope, in lower case. -/
abbrev Names := List (List Char)

/-- The name of a table somewhere in a tree, and whether a query in scope has that name. -/
structure TableMention where
  table : ObjectName
  span : Span
  hidden : Bool

namespace TableMention

/-- A name in a `FROM` list. One with a schema is always a table. -/
def reference (names : Names) (table : ObjectName) (span : Span) : TableMention :=
  ⟨table, span, table.schema.isNone && names.contains (Text.fold table.name.value)⟩

/-- The table that a statement changes is never a named query. -/
def change (table : ObjectName) (span : Span) : TableMention := ⟨table, span, false⟩

def use (m : TableMention) : TableUse :=
  ⟨m.table.schema.map Ident.value, m.table.name.value, m.span⟩

end TableMention

abbrev Fold.tables : Fold Names (List TableMention) where
  empty := []
  both a b := a ++ b
  table names table span := [.reference names table span]
  change table span rest := .change table span :: rest
  define names name := Text.fold name.value :: names

/-- All tables that the statement mentions. -/
def Statement.tables : Statement → List TableMention := Fold.tables.statement []

/-! ## Functions -/

abbrev Fold.calls : Fold Unit (List ObjectName) where
  empty := []
  both a b := a ++ b
  callee name args := name :: args

/-- The names of all functions that are called in the statement. -/
def Statement.calls : Statement → List ObjectName := Fold.calls.statement ()

end SqlTyping
