import SqlTyping.Field

/-!
# Types

A type is a kind, a flag that says whether the value may be null, and the name of the PostgreSQL
type it came from, if there is one. `TypeKind` is open in the type of its parts, so that a type can
hold types.
-/

namespace SqlTyping

inductive TypeKind (τ : Type) where
  | string
  | number
  | bigint
  | boolean
  | date
  | null
  | json
  /-- Nothing is known; fits no declared type. -/
  | unknown
  /-- Fits every declared type. -/
  | any
  /-- One string, such as a label of an enum. -/
  | literal (value : String)
  | composite (name : String) (attributes : List (Field τ))
  | array (items : τ)
  | union (members : List τ)
  | object (fields : List (Field τ))
  /-- A value that may be left out. -/
  | optional (value : τ)
deriving Inhabited

structure SqlType where
  kind : TypeKind SqlType
  nullable : Bool := false
  postgres : Option String := none

instance : Inhabited SqlType := ⟨⟨.unknown, false, none⟩⟩

namespace SqlType

def string : SqlType := { kind := .string }
def number : SqlType := { kind := .number }
def bigint : SqlType := { kind := .bigint }
def boolean : SqlType := { kind := .boolean }
def date : SqlType := { kind := .date }
def json : SqlType := { kind := .json }
def unknown : SqlType := { kind := .unknown }
def any : SqlType := { kind := .any }

/-- The type of `NULL`, which is always nullable. -/
def null : SqlType := { kind := .null, nullable := true }

def literal (value : String) : SqlType := { kind := .literal value }

def composite (name : String) (attributes : List (Field SqlType)) : SqlType :=
  { kind := .composite name attributes }

def array (items : SqlType) : SqlType := { kind := .array items }

def object (fields : List (Field SqlType)) : SqlType := { kind := .object fields }

def optional (value : SqlType) : SqlType := { kind := .optional value }

def withNullable (t : SqlType) (nullable : Bool) : SqlType := { t with nullable }

def withPostgres (t : SqlType) (name : String) : SqlType := { t with postgres := some name }

def isAny (t : SqlType) : Bool := t.kind matches .any

def isUnknown (t : SqlType) : Bool := t.kind matches .unknown

def isNull (t : SqlType) : Bool := t.kind matches .null

end SqlType

/-! ## Equality -/

mutual

def SqlType.beq (a b : SqlType) : Bool :=
  match a, b with
  | ⟨k, n, p⟩, ⟨k', n', p'⟩ => TypeKind.beq k k' && n == n' && p == p'
termination_by structural a

def TypeKind.beq (a b : TypeKind SqlType) : Bool :=
  match a, b with
  | .string, .string | .number, .number | .bigint, .bigint | .boolean, .boolean | .date, .date
  | .null, .null | .json, .json | .unknown, .unknown | .any, .any => true
  | .literal x, .literal y => x == y
  | .composite x fs, .composite y gs => x == y && TypeKind.beqFields fs gs
  | .array x, .array y => x.beq y
  | .union xs, .union ys => TypeKind.beqMembers xs ys
  | .object fs, .object gs => TypeKind.beqFields fs gs
  | .optional x, .optional y => x.beq y
  | _, _ => false
termination_by structural a

def TypeKind.beqMembers (xs ys : List SqlType) : Bool :=
  match xs, ys with
  | [], [] => true
  | x :: xs, y :: ys => x.beq y && TypeKind.beqMembers xs ys
  | _, _ => false
termination_by structural xs

def TypeKind.beqFields (fs gs : List (Field SqlType)) : Bool :=
  match fs, gs with
  | [], [] => true
  | f :: fs, g :: gs => TypeKind.beqField f g && TypeKind.beqFields fs gs
  | _, _ => false
termination_by structural fs

def TypeKind.beqField (f g : Field SqlType) : Bool :=
  match f, g with
  | ⟨n, t⟩, ⟨m, u⟩ => n == m && t.beq u
termination_by structural f

end

instance : BEq SqlType := ⟨SqlType.beq⟩
instance : BEq (TypeKind SqlType) := ⟨TypeKind.beq⟩

mutual

theorem SqlType.beq_iff (a b : SqlType) : a.beq b = true ↔ a = b := by
  obtain ⟨k, n, p⟩ := a
  obtain ⟨k', n', p'⟩ := b
  simp [SqlType.beq, TypeKind.beq_iff k k', and_assoc]

theorem TypeKind.beq_iff (a b : TypeKind SqlType) : TypeKind.beq a b = true ↔ a = b := by
  cases a <;> cases b <;> simp [TypeKind.beq]
  case composite.composite x fs y gs => simp [TypeKind.beqFields_iff fs gs]
  case array.array x y => exact SqlType.beq_iff x y
  case union.union xs ys => exact TypeKind.beqMembers_iff xs ys
  case object.object fs gs => exact TypeKind.beqFields_iff fs gs
  case optional.optional x y => exact SqlType.beq_iff x y

theorem TypeKind.beqMembers_iff (xs ys : List SqlType) :
    TypeKind.beqMembers xs ys = true ↔ xs = ys := by
  cases xs <;> cases ys <;> simp [TypeKind.beqMembers]
  case cons.cons x xs y ys => simp [SqlType.beq_iff x y, TypeKind.beqMembers_iff xs ys]

theorem TypeKind.beqFields_iff (fs gs : List (Field SqlType)) :
    TypeKind.beqFields fs gs = true ↔ fs = gs := by
  cases fs <;> cases gs <;> simp [TypeKind.beqFields]
  case cons.cons f fs g gs => simp [TypeKind.beqField_iff f g, TypeKind.beqFields_iff fs gs]

theorem TypeKind.beqField_iff (f g : Field SqlType) : TypeKind.beqField f g = true ↔ f = g := by
  obtain ⟨n, t⟩ := f
  obtain ⟨m, u⟩ := g
  simp [TypeKind.beqField, SqlType.beq_iff t u]

end

instance : DecidableEq SqlType := fun a b => decidable_of_iff _ (SqlType.beq_iff a b)

instance : DecidableEq (TypeKind SqlType) := fun a b => decidable_of_iff _ (TypeKind.beq_iff a b)

instance : LawfulBEq SqlType where
  eq_of_beq h := (SqlType.beq_iff _ _).1 h
  rfl := (SqlType.beq_iff _ _).2 rfl

instance : LawfulBEq (TypeKind SqlType) where
  eq_of_beq h := (TypeKind.beq_iff _ _).1 h
  rfl := (TypeKind.beq_iff _ _).2 rfl

/-- Do both kinds have the same form, whatever their parts? -/
def TypeKind.sameForm : TypeKind τ → TypeKind τ → Bool
  | .string, .string | .number, .number | .bigint, .bigint | .boolean, .boolean | .date, .date
  | .null, .null | .json, .json | .unknown, .unknown | .any, .any | .literal _, .literal _
  | .composite _ _, .composite _ _ | .array _, .array _ | .union _, .union _
  | .object _, .object _ | .optional _, .optional _ => true
  | _, _ => false

def SqlType.sameForm (a b : SqlType) : Bool := a.kind.sameForm b.kind

end SqlTyping
