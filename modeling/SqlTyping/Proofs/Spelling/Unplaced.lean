import SqlTyping.Proofs.Syntax.Rewriting
import SqlTyping.Syntax.Grammar.Statement

/-!
# Trees without places

What is left of a syntax tree when it is forgotten where its nodes were read, and how the frame of a
window was written.
-/

namespace SqlTyping

def Span.nowhere : Span := ⟨0, 0⟩

/-! ## Leaves -/

def Ident.unplaced (name : Ident) : Ident := { name with span := .nowhere }

def ObjectName.unplaced (name : ObjectName) : ObjectName :=
  ⟨name.schema.map Ident.unplaced, name.name.unplaced, .nowhere⟩

def ParamRef.unplaced (ref : ParamRef) : ParamRef :=
  { ref with pick := ref.pick.map Ident.unplaced, span := .nowhere }

def DataType.unplaced (t : DataType) : DataType := { t with span := .nowhere }

def Operator.unplaced (op : Operator) : Operator := { op with span := .nowhere }

def Locking.unplaced (locking : Locking) : Locking :=
  ⟨locking.strength, locking.tables.map ObjectName.unplaced, .nowhere⟩

def TableAlias.unplaced (name : TableAlias) : TableAlias :=
  ⟨name.name.unplaced, name.columns.map Ident.unplaced⟩

def ConflictTarget.unplaced : ConflictTarget → ConflictTarget
  | .columns names => .columns (names.map Ident.unplaced)
  | .constraint name => .constraint name.unplaced

def TransactionKind.unplaced : TransactionKind → TransactionKind
  | .begin => .begin
  | .commit => .commit
  | .rollback target => .rollback (target.map Ident.unplaced)
  | .savepoint name => .savepoint name.unplaced
  | .release name => .release name.unplaced

def Transaction.unplaced (t : Transaction) : Transaction := ⟨t.kind.unplaced, .nowhere⟩

/-! ## Nodes -/

abbrev Rewrite.unplaced : Rewrite where
  span _ := .nowhere
  ident := Ident.unplaced
  ident? := Option.map Ident.unplaced
  idents := List.map Ident.unplaced
  name := ObjectName.unplaced
  name? := Option.map ObjectName.unplaced
  param := ParamRef.unplaced
  dataType := DataType.unplaced
  operator := Operator.unplaced
  locking := List.map Locking.unplaced
  tableAlias := Option.map TableAlias.unplaced
  target := Option.map ConflictTarget.unplaced
  frame := Option.map fun _ => ""
  transaction := Transaction.unplaced
  group inner _ := .nested inner .nowhere

abbrev Statement.unplaced (st : Statement) : Statement := st.rewrite .unplaced

end SqlTyping
