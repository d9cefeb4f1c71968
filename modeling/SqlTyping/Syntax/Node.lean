import SqlTyping.Syntax.Tree

/-!
# Parts of syntax trees
-/

namespace SqlTyping

namespace DataType

/-- The name of the type as it is looked up: with its schema and one `[]` for each dimension. -/
def fullName (t : DataType) : String :=
  let name := match t.schema with
    | some schema => schema ++ "." ++ t.name
    | none => t.name
  name ++ String.join (List.replicate t.dimensions "[]")

end DataType

namespace Expr

def span : Expr → Span
  | .literal _ span | .column _ _ _ span | .unary _ _ span | .binary _ _ _ span | .is _ _ _ span
  | .isDistinctFrom _ _ _ span | .between _ _ _ _ _ span | .inList _ _ _ span
  | .inSubquery _ _ _ span | .inParam _ _ _ span | .like _ _ _ _ _ span | .quantified _ _ _ _ span
  | .quantifiedSubquery _ _ _ _ span | .cast _ _ span | .typedString _ _ span | .case _ _ _ span
  | .existsRow _ span | .subquery _ span | .array _ span | .arraySubquery _ span | .row _ span
  | .nested _ span | .subscript _ _ _ _ span | .field _ _ span | .extract _ _ span
  | .current _ span | .defaultValue span => span
  | .param ref => ref.span
  | .function call => call.span

/-- The expression without parentheses around it. -/
def unnested : Expr → Expr
  | .nested inner _ => inner.unnested
  | e => e

end Expr

/-- The first branch of a set operation, which names the result columns. -/
def SetExpr.leftmost : SetExpr → SetExpr
  | .operation _ _ left _ _ => left.leftmost
  | body => body

def Statement.span : Statement → Span
  | .query q => q.span
  | .insert i => i.span
  | .update u => u.span
  | .delete d => d.span
  | .transaction t => t.span

end SqlTyping
