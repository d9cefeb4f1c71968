import SqlTyping.Extraction.Basic
import SqlTyping.Proofs.Syntax.Rewriting

/-!
# Trees without parentheses around expressions

What is left of a syntax tree when every expression in parentheses is replaced by the expression
itself. All other nodes stay, and with them their spans.
-/

namespace SqlTyping

abbrev Rewrite.ungrouped : Rewrite where
  group inner _ := inner

abbrev Statement.ungrouped (st : Statement) : Statement := st.rewrite .ungrouped

/-! ## What an expression is apart from parentheses -/

namespace Expr

theorem param?_ungrouped (e : Expr) : (e.rewrite .ungrouped).param? = e.param? := by
  cases e with
  | nested inner span => exact param?_ungrouped inner
  | _ => rfl

theorem stringLiteral?_ungrouped (e : Expr) :
    (e.rewrite .ungrouped).stringLiteral? = e.stringLiteral? := by
  cases e with
  | nested inner span => exact stringLiteral?_ungrouped inner
  | _ => rfl

theorem isTuple_ungrouped (e : Expr) : (e.rewrite .ungrouped).isTuple = e.isTuple := by
  cases e with
  | nested inner span => exact isTuple_ungrouped inner
  | _ => rfl

theorem isRow_ungrouped (e : Expr) : (e.rewrite .ungrouped).isRow = e.isRow := by
  cases e with
  | nested inner span => exact isRow_ungrouped inner
  | _ => rfl

theorem isNullLiteral_ungrouped (e : Expr) :
    (e.rewrite .ungrouped).isNullLiteral = e.isNullLiteral := by
  cases e with
  | nested inner span => exact isNullLiteral_ungrouped inner
  | _ => rfl

end Expr

/-! ## Names of result columns -/

mutual

theorem Expr.resultName_ungrouped (e : Expr) : (e.rewrite .ungrouped).resultName = e.resultName := by
  cases e with
  | nested inner span => exact inner.resultName_ungrouped
  | cast operand target span =>
    show (if (operand.rewrite .ungrouped).resultName == unnamedColumn then target.shortName
      else (operand.rewrite .ungrouped).resultName) = _
    rw [operand.resultName_ungrouped]
    rfl
  | subquery query span => exact query.firstName_ungrouped
  | subscript operand lower upper slice span => exact operand.resultName_ungrouped
  | function call =>
    cases call
    rfl
  | _ => rfl

theorem Query.firstName_ungrouped (query : Query) :
    (query.rewrite .ungrouped).firstName = query.firstName := by
  cases query with
  | mk withClause body orderBy limit offset locking span => exact body.firstName_ungrouped

theorem SetExpr.firstName_ungrouped (body : SetExpr) :
    (body.rewrite .ungrouped).firstName = body.firstName := by
  cases body with
  | operation op all left right span => exact left.firstName_ungrouped
  | select select => exact select.firstName_ungrouped
  | values values => rfl
  | nested query => rfl

theorem Select.firstName_ungrouped (select : Select) :
    (select.rewrite .ungrouped).firstName = select.firstName := by
  cases select with
  | mk quantity items relations selection groupBy having windows span =>
    exact SelectItem.firstName_ungrouped items

theorem SelectItem.firstName_ungrouped (items : List SelectItem) :
    SelectItem.firstName (SelectItem.rewriteList .ungrouped items) = SelectItem.firstName items := by
  cases items with
  | nil => rfl
  | cons item rest => exact item.resultName_ungrouped

theorem SelectItem.resultName_ungrouped (item : SelectItem) :
    (item.rewrite .ungrouped).resultName = item.resultName := by
  cases item with
  | wildcard qualifier span => rfl
  | expr e asName span =>
    cases asName with
    | some name => rfl
    | none => exact e.resultName_ungrouped

end

end SqlTyping
