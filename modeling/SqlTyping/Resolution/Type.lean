import SqlTyping.Resolution.Level
import SqlTyping.Resolution.Named
import SqlTyping.TypeExpr.Basic

/-!
# Typing what waited for the catalog

`TypeExpr.resolve` turns a type that waits for the catalog into a type.
-/

namespace SqlTyping

/-- What a type is resolved against. -/
structure TypeContext where
  store : Store
  mode : ResolveMode
  /-- The sources in scope, innermost level first. -/
  levels : List Level
  position : ColumnPosition

/-- In lenient mode, what was not found is `unknown`. -/
def recover (mode : ResolveMode) : Except LoadError SqlType → Except LoadError SqlType
  | .error e => if mode == .lenient && e.isNotFound then .ok .unknown else .error e
  | .ok t => .ok t

/-- An item of an array; an item of JSON is JSON. -/
def SqlType.item (t : SqlType) : SqlType :=
  match t.kind with
  | .array items => items
  | .json => .json
  | _ => .unknown

/-- A field of a composite value, which is nullable if the value is. -/
def SqlType.field (mode : ResolveMode) (t : SqlType) (field : String) (span : Span) :
    Except LoadError SqlType :=
  match t.kind, mode with
  | .composite name attributes, _ =>
    match attributes.find? fun a => Text.eqFold a.name field with
    | some a => .ok (a.value.withNullable (a.value.nullable || t.nullable))
    | none => .error ⟨.missingField name field, some span⟩
  | .unknown, .lenient => .ok .unknown
  | _, _ => .error ⟨.fieldOfNonComposite field t, some span⟩

mutual

def TypeExpr.resolve (ctx : TypeContext) : TypeExpr → Except LoadError SqlType
  | .known t => .ok t
  | .column schema table name span =>
    recover ctx.mode (Level.lookup ctx.levels schema table name span ctx.position)
  | .record schema name _ => do
    return (← ctx.store.namedType ⟨schema, name⟩).getD .unknown
  | .named schema name nullable span => do
    match ← ctx.store.namedType ⟨schema, name⟩ with
    | some t => return t.withNullable nullable
    | none => recover ctx.mode (.error ⟨.unknownType ⟨schema, name⟩, some span⟩)
  | .function schema name args span => do
    let args ← TypeExpr.resolveList ctx args
    recover ctx.mode (ctx.store.functionType ⟨schema, name⟩ args none span)
  | .functionArgument schema name args index span => do
    let args ← TypeExpr.resolveList ctx args
    recover ctx.mode (ctx.store.functionType ⟨schema, name⟩ args (some index) span)
  | .operator _ left right available part _ => do
    let left ← left.resolve ctx
    let right ← right.resolve ctx
    return Overload.resolve available left right part
  | .array items nullable => do return (SqlType.array (← items.resolve ctx)).withNullable nullable
  | .asArray value nullable => do return (SqlType.array (← value.resolve ctx)).withNullable nullable
  | .arrayItem value => do return (← value.resolve ctx).item
  | .fieldAccess value name span => do (← value.resolve ctx).field ctx.mode name span
  | .union items => do return SqlType.union (← TypeExpr.resolveList ctx items)
  | .coalesce items => do return SqlType.coalesce (← TypeExpr.resolveList ctx items)
  | .object fields nullable => do
    return (SqlType.object (← TypeExpr.resolveFields ctx fields)).withNullable nullable
  | .optional value => do return .optional (← value.resolve ctx)
  | .cast source value => do
    let source ← source.resolve ctx
    let value ← value.resolve ctx
    return value.withNullable source.nullable
  | .star .. => .ok .unknown

def TypeExpr.resolveList (ctx : TypeContext) : List TypeExpr → Except LoadError (List SqlType)
  | [] => .ok []
  | t :: rest => do
    let t ← t.resolve ctx
    return t :: (← TypeExpr.resolveList ctx rest)

def TypeExpr.resolveFields (ctx : TypeContext) :
    List (Field TypeExpr) → Except LoadError (List (Field SqlType))
  | [] => .ok []
  | f :: rest => do
    let f ← TypeExpr.resolveField ctx f
    return f :: (← TypeExpr.resolveFields ctx rest)

def TypeExpr.resolveField (ctx : TypeContext) : Field TypeExpr → Except LoadError (Field SqlType)
  | ⟨name, t⟩ => do return ⟨name, ← t.resolve ctx⟩

end

end SqlTyping
