import SqlTyping.Syntax.Node
import SqlTyping.TypeName.Builtin

/-!
# Names of result columns

The name that PostgreSQL gives to an item of `SELECT` that has no alias.
-/

namespace SqlTyping

/-- The name of a column for which there is no better one. -/
def unnamedColumn : String := "?column?"

/-- The short name of a type, without schema and dimensions. -/
def DataType.shortName (t : DataType) : String := (canonicalTypeName? t.name).getD t.name

def CurrentKind.resultName : CurrentKind → String
  | .date => "current_date"
  | .time => "current_time"
  | .timestamp => "current_timestamp"
  | .localTime => "localtime"
  | .localTimestamp => "localtimestamp"
  | .user => "current_user"

mutual

def Expr.resultName : Expr → String
  | .column _ _ column _ => column.value
  | .function call => call.name.name.value
  | .cast operand target _ =>
    let name := operand.resultName
    if name == unnamedColumn then target.shortName else name
  | .typedString target _ _ => target.shortName
  | .literal (.boolean _) _ => "bool"
  | .row _ _ => "row"
  | .existsRow _ _ => "exists"
  | .array _ _ | .arraySubquery _ _ => "array"
  | .case _ _ _ _ => "case"
  | .subquery query _ => Query.firstName query
  | .nested inner _ => inner.resultName
  | .subscript operand _ _ _ _ => operand.resultName
  | .field _ name _ => name.value
  | .extract _ _ _ => "extract"
  | .current kind _ => kind.resultName
  | _ => unnamedColumn

/-- The name of the first result column. -/
def Query.firstName : Query → String
  | ⟨_, body, _, _, _, _, _⟩ => SetExpr.firstName body

def SetExpr.firstName : SetExpr → String
  | .operation _ _ left _ _ => SetExpr.firstName left
  | .select select => Select.firstName select
  | .values _ | .nested _ => unnamedColumn

def Select.firstName : Select → String
  | ⟨_, items, _, _, _, _, _, _⟩ => SelectItem.firstName items

def SelectItem.firstName : List SelectItem → String
  | [] => unnamedColumn
  | item :: _ => SelectItem.resultName item

def SelectItem.resultName : SelectItem → String
  | .wildcard _ _ => unnamedColumn
  | .expr e asName _ =>
    match asName with
    | some asName => asName.value
    | none => e.resultName

end

end SqlTyping
