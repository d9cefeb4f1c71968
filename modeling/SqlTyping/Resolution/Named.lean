import SqlTyping.Catalog.Store
import SqlTyping.Resolution.Problem
import SqlTyping.SqlType.Accepts
import SqlTyping.SqlType.Union

/-!
# Types and functions of the catalog
-/

namespace SqlTyping

/-- How many composite types may be nested in each other. -/
def maxCompositeDepth : Nat := 16

/-- An array of `n` dimensions. PostgreSQL calls an array type by its item type with `_` in front.
-/
def SqlType.arrays (t : SqlType) : (n : Nat) → SqlType
  | 0 => t
  | n + 1 =>
    let items := t.arrays n
    { SqlType.array items with postgres := items.postgres.map ("_" ++ ·) }

/-- The type that a spelling of the catalog stands for, where `named` types what is not built in. -/
def typeOfSpelling (named : QualifiedName → Except LoadError (Option SqlType)) (spelling : String) :
    Except LoadError SqlType :=
  match builtinType? spelling with
  | some t => .ok t
  | none =>
    let name := TypeName.read spelling
    match named ⟨name.schema, name.name⟩ with
    | .error e => .error e
    | .ok none => .ok (SqlType.unknown.withPostgres spelling)
    | .ok (some t) => .ok (t.arrays name.dimensions)

namespace Store

/-- An enum is the union of its labels; a composite type has its attributes, which may be composites
down to `depth` levels. Nothing if there is neither. -/
def namedTypeWithin (s : Store) : (depth : Nat) → QualifiedName → Except LoadError (Option SqlType)
  | depth, name =>
    match s.enum? name with
    | some (found, variants) =>
      .ok (some ((SqlType.union (variants.map SqlType.literal)).withPostgres found.name))
    | none =>
      match s.composite? name, depth with
      | none, _ => .ok none
      | some (found, _), 0 => .error { problem := .nestedTooDeep found }
      | some (found, attributes), depth + 1 => do
        let fields ← attributes.mapM fun a => do
          let t ← typeOfSpelling (s.namedTypeWithin depth) a.pgType
          return ⟨a.name, t.withNullable a.nullable⟩
        return some ((SqlType.composite found.name fields).withPostgres found.name)

def namedType (s : Store) (name : QualifiedName) : Except LoadError (Option SqlType) :=
  s.namedTypeWithin maxCompositeDepth name

def typeNamed (s : Store) (spelling : String) : Except LoadError SqlType :=
  typeOfSpelling s.namedType spelling

/-- The columns of a table as the catalog has them. -/
def typeColumns (s : Store) (columns : List Column) : Except LoadError (List (Field SqlType)) :=
  columns.mapM fun c => do
    return ⟨c.name, (← s.typeNamed c.pgType).withNullable c.nullable⟩

/-! ## Functions -/

/-- An overload that accepts the arguments of a call. -/
structure FunctionMatch where
  declared : List SqlType
  returns : String
  isAggregate : Bool

/-- The first overload that accepts the arguments. -/
def matchFunction (s : Store) (args : List SqlType) :
    (overloads : List CatalogRecord) → Except LoadError (Option FunctionMatch)
  | [] => .ok none
  | .function _ declared returns isAggregate :: rest =>
    if declared.length != args.length then s.matchFunction args rest
    else do
      let types ← declared.mapM s.typeNamed
      if (types.zip args).all fun (declared, actual) => declared.accepts actual then
        return some ⟨types, returns, isAggregate⟩
      else s.matchFunction args rest
  | _ :: rest => s.matchFunction args rest

/-- The argument that says what a polymorphic result is: the first that is passed for `any`. -/
def FunctionMatch.polymorphic? (m : FunctionMatch) (args : List SqlType) : Option SqlType :=
  ((m.declared.zip args).find? fun (declared, actual) => declared.isAny && !actual.isAny).map (·.2)

/-- What the overload returns. An aggregate may return null; one that is declared to return an array
returns an item. Any other function may return null if an argument may be. -/
def FunctionMatch.result (m : FunctionMatch) (args : List SqlType) (declared : SqlType) : SqlType :=
  let result := if declared.isAny then (m.polymorphic? args).getD declared else declared
  if m.isAggregate then
    match result.kind with
    | .array items => items.withNullable true
    | _ => result.withNullable true
  else result.withNullable (result.nullable || args.any (·.nullable))

/-- The signatures of overloads, as they are shown. -/
def signatures (name : QualifiedName) (overloads : List CatalogRecord) : List String :=
  overloads.filterMap fun
    | .function _ args returns _ =>
      some (name.name ++ "(" ++ ", ".intercalate args ++ ") -> " ++ returns)
    | _ => none

/-- The type of a call, or of what is declared for the argument at `index`. -/
def functionType (s : Store) (name : QualifiedName) (args : List SqlType) (index : Option Nat)
    (span : Span) : Except LoadError SqlType :=
  match s.functions name with
  | [] => .error ⟨.functionNotFound name, some span⟩
  | overloads => do
    match ← s.matchFunction args overloads, index with
    | none, _ => .error ⟨.noMatchingFunction name args (signatures name overloads), some span⟩
    | some m, some index => return (m.declared[index]?).getD .unknown
    | some m, none => return m.result args (← s.typeNamed m.returns)

end Store

end SqlTyping
