import SqlTyping.Proofs.Nesting.Tokens
import SqlTyping.Proofs.Syntax.Fold
import Mathlib.Data.Set.Basic

/-!
# Sketches of syntax trees

The sketch of a tree keeps what the tree says about the brackets and parameters in its text: which
parameters it holds, where a bracket does not count as a level of nesting, and what text it leaves
out. A window frame is kept as text only, and the predicate of a conflict target is dropped.
-/

namespace SqlTyping

inductive Sketch where
  | empty
  | both (first second : Sketch)
  | param (ref : ParamRef)
  /-- Something in brackets that are no level of nesting. -/
  | inner (inside : Sketch)
  /-- A window frame, as written. -/
  | frame (text : String)
  /-- Text that is read but not kept. -/
  | dropped (span : Span)

namespace Sketch

/-! ## Places where brackets do not count -/

/-- Is the expression an array, so that its brackets do not count in an array around it? -/
def isArray : Expr → Bool
  | .array .. => true
  | _ => false

/-- A call of `position`, whose first argument is no level of its own. -/
def isPosition (name : ObjectName) : Bool := name.schema.isNone && name.name.value == "position"

/-- What stands after the columns of a conflict target, up to what follows it. -/
def ofTarget (target : Option ConflictTarget) (stop : Nat) : Sketch :=
  match target with
  | some (.columns names) => dropped ⟨(names.getLast?.map (·.span.stop)).getD 0, stop⟩
  | some (.constraint _) | none => empty

end Sketch

abbrev Fold.sketch : Fold Unit Sketch where
  empty := .empty
  both := .both
  param := .param
  callee name args := if Sketch.isPosition name then args.inner else args
  element e inside := if Sketch.isArray e then inside.inner else inside
  inner := .inner
  frame text inside := inside.both (text.elim .empty .frame)
  target target stop rest := (Sketch.ofTarget target stop).both rest

def Statement.sketch : Statement → Sketch := Fold.sketch.statement ()

end SqlTyping
