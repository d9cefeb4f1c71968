import SqlTyping.Overload
import SqlTyping.Span
import SqlTyping.SqlType.Union

/-!
# Types that wait for the catalog

The type of an expression is known from its text alone, or it depends on what the catalog says about
tables, functions and types. `TypeExpr` describes such a type; `TypeExpr.known` is one for which
nothing is left to look up. The operations `union`, `coalesceOf`, `arrayOf` and `objectOf` give a
known type where all their parts are known.
-/

namespace SqlTyping

inductive TypeExpr where
  | known (type : SqlType)
  /-- A column of a source of the query. -/
  | column (schema table : Option String) (column : String) (span : Span)
  /-- An enum or composite type; `unknown` if there is neither. -/
  | record (schema : Option String) (name : String) (span : Span)
  /-- What a function returns. -/
  | function (schema : Option String) (name : String) (args : List TypeExpr) (span : Span)
  /-- What a function declares for one of its arguments. -/
  | functionArgument (schema : Option String) (name : String) (args : List TypeExpr) (index : Nat)
      (span : Span)
  /-- A part of the overload of a binary operator that its operands call for. -/
  | operator (symbol : String) (left right : TypeExpr) (available : List Overload)
      (part : OperatorPart) (span : Span)
  /-- A PostgreSQL type that is not built in. -/
  | named (schema : Option String) (name : String) (nullable : Bool) (span : Span)
  | array (items : TypeExpr) (nullable : Bool)
  /-- An item of an array. -/
  | arrayItem (value : TypeExpr)
  /-- `(value).name`. -/
  | fieldAccess (value : TypeExpr) (name : String) (span : Span)
  | union (items : List TypeExpr)
  | object (fields : List (Field TypeExpr)) (nullable : Bool)
  | optional (value : TypeExpr)
  /-- `*` or `table.*`, which stands for many result columns. -/
  | star (schema table : Option String) (span : Span)
  /-- The type `value` with the nullability of `column`. -/
  | cast (column value : TypeExpr)
  | coalesce (items : List TypeExpr)
  /-- An array of the given value. -/
  | asArray (value : TypeExpr) (nullable : Bool)

instance : Inhabited TypeExpr := ⟨.known default⟩

/-! ## Equality -/

mutual

def TypeExpr.beq (a b : TypeExpr) : Bool :=
  match a, b with
  | .known t, .known u => t == u
  | .column s t c p, .column s' t' c' p' => s == s' && t == t' && c == c' && p == p'
  | .record s n p, .record s' n' p' => s == s' && n == n' && p == p'
  | .function s n as p, .function s' n' as' p' =>
    s == s' && n == n' && TypeExpr.beqList as as' && p == p'
  | .functionArgument s n as i p, .functionArgument s' n' as' i' p' =>
    s == s' && n == n' && TypeExpr.beqList as as' && i == i' && p == p'
  | .operator o l r v q p, .operator o' l' r' v' q' p' =>
    o == o' && l.beq l' && r.beq r' && v == v' && q == q' && p == p'
  | .named s n m p, .named s' n' m' p' => s == s' && n == n' && m == m' && p == p'
  | .array t m, .array t' m' => t.beq t' && m == m'
  | .arrayItem t, .arrayItem t' => t.beq t'
  | .fieldAccess t n p, .fieldAccess t' n' p' => t.beq t' && n == n' && p == p'
  | .union ts, .union ts' => TypeExpr.beqList ts ts'
  | .object fs m, .object fs' m' => TypeExpr.beqFields fs fs' && m == m'
  | .optional t, .optional t' => t.beq t'
  | .star s t p, .star s' t' p' => s == s' && t == t' && p == p'
  | .cast c t, .cast c' t' => c.beq c' && t.beq t'
  | .coalesce ts, .coalesce ts' => TypeExpr.beqList ts ts'
  | .asArray t m, .asArray t' m' => t.beq t' && m == m'
  | _, _ => false
termination_by structural a

def TypeExpr.beqList (ts us : List TypeExpr) : Bool :=
  match ts, us with
  | [], [] => true
  | t :: ts, u :: us => t.beq u && TypeExpr.beqList ts us
  | _, _ => false
termination_by structural ts

def TypeExpr.beqFields (fs gs : List (Field TypeExpr)) : Bool :=
  match fs, gs with
  | [], [] => true
  | f :: fs, g :: gs => TypeExpr.beqField f g && TypeExpr.beqFields fs gs
  | _, _ => false
termination_by structural fs

def TypeExpr.beqField (f g : Field TypeExpr) : Bool :=
  match f, g with
  | ⟨n, t⟩, ⟨m, u⟩ => n == m && t.beq u
termination_by structural f

end

instance : BEq TypeExpr := ⟨TypeExpr.beq⟩

mutual

theorem TypeExpr.beq_iff (a b : TypeExpr) : a.beq b = true ↔ a = b := by
  cases a <;> cases b <;> simp [TypeExpr.beq]
  case function.function as _ _ _ as' _ => simp [TypeExpr.beqList_iff as as', and_assoc]
  case functionArgument.functionArgument as _ _ _ _ as' _ _ =>
    simp [TypeExpr.beqList_iff as as', and_assoc]
  case operator.operator l r _ _ _ _ l' r' _ _ _ =>
    simp [TypeExpr.beq_iff l l', TypeExpr.beq_iff r r', and_assoc]
  case column.column => simp [and_assoc]
  case record.record => simp [and_assoc]
  case named.named => simp [and_assoc]
  case star.star => simp [and_assoc]
  case array.array t _ t' _ => simp [TypeExpr.beq_iff t t']
  case arrayItem.arrayItem t t' => exact TypeExpr.beq_iff t t'
  case fieldAccess.fieldAccess t _ _ t' _ _ => simp [TypeExpr.beq_iff t t', and_assoc]
  case union.union ts ts' => exact TypeExpr.beqList_iff ts ts'
  case object.object fs _ fs' _ => simp [TypeExpr.beqFields_iff fs fs']
  case optional.optional t t' => exact TypeExpr.beq_iff t t'
  case cast.cast c t c' t' => simp [TypeExpr.beq_iff c c', TypeExpr.beq_iff t t']
  case coalesce.coalesce ts ts' => exact TypeExpr.beqList_iff ts ts'
  case asArray.asArray t _ t' _ => simp [TypeExpr.beq_iff t t']

theorem TypeExpr.beqList_iff (ts us : List TypeExpr) : TypeExpr.beqList ts us = true ↔ ts = us := by
  cases ts <;> cases us <;> simp [TypeExpr.beqList]
  case cons.cons t ts u us => simp [TypeExpr.beq_iff t u, TypeExpr.beqList_iff ts us]

theorem TypeExpr.beqFields_iff (fs gs : List (Field TypeExpr)) :
    TypeExpr.beqFields fs gs = true ↔ fs = gs := by
  cases fs <;> cases gs <;> simp [TypeExpr.beqFields]
  case cons.cons f fs g gs => simp [TypeExpr.beqField_iff f g, TypeExpr.beqFields_iff fs gs]

theorem TypeExpr.beqField_iff (f g : Field TypeExpr) : TypeExpr.beqField f g = true ↔ f = g := by
  obtain ⟨n, t⟩ := f
  obtain ⟨m, u⟩ := g
  simp [TypeExpr.beqField, TypeExpr.beq_iff t u]

end

instance : DecidableEq TypeExpr := fun a b => decidable_of_iff _ (TypeExpr.beq_iff a b)

instance : LawfulBEq TypeExpr where
  eq_of_beq h := (TypeExpr.beq_iff _ _).1 h
  rfl := (TypeExpr.beq_iff _ _).2 rfl

namespace TypeExpr

def known? : TypeExpr → Option SqlType
  | .known t => some t
  | _ => none

/-- Does the type depend on the catalog? -/
def isDeferred (t : TypeExpr) : Bool := t.known?.isNone

/-! ## Building types from parts -/

/-- The items of a union that waits, or the type itself. -/
def unionItems : TypeExpr → List TypeExpr
  | .union items => items
  | t => [t]

/-- The union of the items without repetitions. Unions that wait are opened. A single item stands
for itself. -/
def unionOf (items : List TypeExpr) : TypeExpr :=
  match (items.flatMap unionItems).eraseDups with
  | [only] => only
  | flat =>
    match flat.mapM known? with
    | some types => .known (SqlType.union types)
    | none => .union flat

/-- The common type of the arguments of `COALESCE`. -/
def coalesceOf (items : List TypeExpr) : TypeExpr :=
  match items.mapM known? with
  | some types => .known (SqlType.coalesce types)
  | none => .coalesce items

def arrayOf (items : TypeExpr) (nullable : Bool) : TypeExpr :=
  match items with
  | .known t => .known ((SqlType.array t).withNullable nullable)
  | items => .array items nullable

def knownField? (f : Field TypeExpr) : Option (Field SqlType) := f.value.known?.map (⟨f.name, ·⟩)

/-- An object that is not null itself. -/
def objectOf (fields : List (Field TypeExpr)) : TypeExpr :=
  match fields.mapM knownField? with
  | some fields => .known (SqlType.object fields)
  | none => .object fields false

end TypeExpr

end SqlTyping
