import SqlTyping.TypeExpr.Basic

/-!
# Built-in functions

Functions whose result depends on their arguments in ways that no signature in the catalog says.
All other functions are looked up there.
-/

namespace SqlTyping

/-- A call by a name in lower case. Beside each argument stands its text, if it is a string. -/
structure BuiltinCall where
  name : String
  args : List TypeExpr
  literals : List (Option String)
  star : Bool

namespace BuiltinCall

/-- Functions whose arguments and result have one common type. -/
def isCommonType (name : String) : Bool := ["coalesce", "greatest", "least"].contains name

def isTimestamp (name : String) : Bool :=
  ["now", "clock_timestamp", "statement_timestamp", "transaction_timestamp", "date_trunc",
    "make_date", "make_timestamp", "make_timestamptz", "to_timestamp"].contains name

def isJson (name : String) : Bool :=
  ["to_json", "to_jsonb", "row_to_json", "json_build_array", "jsonb_build_array", "json_object",
    "jsonb_object"].contains name

/-- Aggregates are null over no rows. -/
def isJsonAggregate (name : String) : Bool :=
  ["json_agg", "jsonb_agg", "json_object_agg", "jsonb_object_agg"].contains name

/-- Arguments that alternate between keys and values, if every key is a string and has a value. -/
def keyed? :
    (args : List TypeExpr) → (literals : List (Option String)) → Option (List (Field TypeExpr))
  | [], _ => some []
  | _ :: value :: args, some key :: literals =>
    (keyed? args (literals.drop 1)).map (⟨key, value⟩ :: ·)
  | _, _ => none

/-- The type of the call, or `none` if the function is not built in. -/
def type? (call : BuiltinCall) : Option TypeExpr :=
  match call.name, call.args with
  | "array_agg", [item] => some (.arrayOf item true)
  | "json_build_object", args | "jsonb_build_object", args =>
    match keyed? args call.literals with
    | some fields => some (.objectOf fields)
    | none => some (.known .json)
  | name, args =>
    if isCommonType name then some (.coalesceOf args)
    else if name == "count" && (call.star || args.length == 1) then
      some (.known (SqlType.bigint.withPostgres "int8"))
    else if name == "date_part" then some (.known (SqlType.number.withPostgres "float8"))
    else if isTimestamp name then some (.known (SqlType.date.withPostgres "timestamptz"))
    else if isJson name then some (.known .json)
    else if isJsonAggregate name then some (.known (SqlType.json.withNullable true))
    else none

end BuiltinCall

end SqlTyping
