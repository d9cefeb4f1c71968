import SqlTyping.SqlType.Basic

/-!
# Types as text

The notation for types in messages and listings: `number`, `Array<string>`, `'a' | 'b' | null`,
`{ id: number, name: string }`.
-/

namespace SqlTyping

mutual

def SqlType.render : SqlType → String
  | ⟨.null, _, _⟩ => "null"
  | ⟨kind, nullable, _⟩ => TypeKind.render kind ++ if nullable then " | null" else ""

def TypeKind.render : TypeKind SqlType → String
  | .string => "string"
  | .number => "number"
  | .bigint => "bigint"
  | .boolean => "boolean"
  | .date => "Date"
  | .null => "null"
  | .json => "json"
  | .unknown => "unknown"
  | .any => "any"
  | .literal value => "'" ++ value ++ "'"
  | .composite name _ => name
  | .array items => "Array<" ++ items.render ++ ">"
  | .union members => " | ".intercalate (TypeKind.renderMembers members)
  | .object fields => "\x7b " ++ ", ".intercalate (TypeKind.renderFields fields) ++ " \x7d"
  | .optional value => value.render ++ "?"

def TypeKind.renderMembers : List SqlType → List String
  | [] => []
  | m :: rest => m.render :: TypeKind.renderMembers rest

def TypeKind.renderFields : List (Field SqlType) → List String
  | [] => []
  | f :: rest => TypeKind.renderField f :: TypeKind.renderFields rest

def TypeKind.renderField : Field SqlType → String
  | ⟨name, value⟩ => name ++ ": " ++ value.render

end

end SqlTyping
