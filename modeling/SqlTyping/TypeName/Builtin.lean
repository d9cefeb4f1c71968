import SqlTyping.SqlType.Basic
import SqlTyping.TypeName.Basic

/-!
# Built-in types

The types that every PostgreSQL database has, under all their spellings, and how their values are
typed. A name that is not in the table is an enum or a composite type of the database at hand.
-/

namespace SqlTyping

/-- A built-in type: its name, the spellings that stand for it, and the type of its values. -/
structure BuiltinType where
  name : String
  spellings : List String
  type : SqlType

/-- Numbers of arbitrary precision are strings, so that no digit is lost. -/
def builtinTypes : List BuiltinType := [
  ⟨"bool", ["bool", "boolean"], .boolean⟩,
  ⟨"int2", ["int2", "smallint", "smallserial", "serial2"], .number⟩,
  ⟨"int4", ["int4", "integer", "int", "serial", "serial4"], .number⟩,
  ⟨"int8", ["int8", "bigint", "bigserial", "serial8"], .bigint⟩,
  ⟨"oid", ["oid", "xid", "cid", "regproc"], .number⟩,
  ⟨"float4", ["float4", "real"], .number⟩,
  ⟨"float8", ["float8", "double precision", "float"], .number⟩,
  ⟨"numeric", ["numeric", "decimal"], .string⟩,
  ⟨"money", ["money"], .string⟩,
  ⟨"text", ["text"], .string⟩,
  ⟨"varchar", ["varchar", "character varying"], .string⟩,
  ⟨"bpchar", ["bpchar", "character", "char"], .string⟩,
  ⟨"name", ["name"], .string⟩,
  ⟨"citext", ["citext"], .string⟩,
  ⟨"uuid", ["uuid"], .string⟩,
  ⟨"xml", ["xml"], .string⟩,
  ⟨"bytea", ["bytea"], .string⟩,
  ⟨"bit", ["bit"], .string⟩,
  ⟨"varbit", ["varbit", "bit varying"], .string⟩,
  ⟨"date", ["date"], .date⟩,
  ⟨"timestamp", ["timestamp", "timestamp without time zone"], .date⟩,
  ⟨"timestamptz", ["timestamptz", "timestamp with time zone"], .date⟩,
  ⟨"time", ["time", "time without time zone"], .string⟩,
  ⟨"timetz", ["timetz", "time with time zone"], .string⟩,
  ⟨"interval", ["interval"], .string⟩,
  ⟨"json", ["json"], .json⟩,
  ⟨"jsonb", ["jsonb"], .json⟩,
  ⟨"jsonpath", ["jsonpath"], .string⟩,
  ⟨"inet", ["inet"], .string⟩,
  ⟨"cidr", ["cidr"], .string⟩,
  ⟨"macaddr", ["macaddr"], .string⟩,
  ⟨"macaddr8", ["macaddr8"], .string⟩,
  ⟨"point", ["point"], .string⟩,
  ⟨"line", ["line"], .string⟩,
  ⟨"lseg", ["lseg"], .string⟩,
  ⟨"box", ["box"], .string⟩,
  ⟨"path", ["path"], .string⟩,
  ⟨"polygon", ["polygon"], .string⟩,
  ⟨"circle", ["circle"], .string⟩,
  ⟨"tsvector", ["tsvector"], .string⟩,
  ⟨"tsquery", ["tsquery"], .string⟩,
  ⟨"regconfig", ["regconfig"], .string⟩,
  ⟨"int4range", ["int4range"], .string⟩,
  ⟨"int8range", ["int8range"], .string⟩,
  ⟨"numrange", ["numrange"], .string⟩,
  ⟨"tsrange", ["tsrange"], .string⟩,
  ⟨"tstzrange", ["tstzrange"], .string⟩,
  ⟨"daterange", ["daterange"], .string⟩,
  ⟨"regclass", ["regclass"], .string⟩,
  ⟨"regtype", ["regtype"], .string⟩,
  ⟨"regnamespace", ["regnamespace"], .string⟩,
  ⟨"regrole", ["regrole"], .string⟩,
  ⟨"pg_lsn", ["pg_lsn"], .string⟩,
  ⟨"any", ["any"], .any⟩,
  ⟨"anyelement", ["anyelement"], .any⟩,
  ⟨"anynonarray", ["anynonarray"], .any⟩,
  ⟨"anyenum", ["anyenum"], .any⟩,
  ⟨"anycompatible", ["anycompatible"], .any⟩,
  ⟨"anycompatiblenonarray", ["anycompatiblenonarray"], .any⟩,
  ⟨"anyrange", ["anyrange"], .any⟩,
  ⟨"record", ["record"], .any⟩,
  ⟨"internal", ["internal"], .any⟩,
  ⟨"anyarray", ["anyarray"], .array .any⟩,
  ⟨"anycompatiblearray", ["anycompatiblearray"], .array .any⟩,
  ⟨"void", ["void"], .null⟩,
  ⟨"unknown", ["unknown"], .unknown⟩,
  ⟨"trigger", ["trigger"], .unknown⟩,
  ⟨"cstring", ["cstring"], .string⟩]

namespace TypeName

/-- The built-in type of the database that a name without schema stands for. -/
def builtin? (t : TypeName) : Option BuiltinType :=
  if t.schema.isSome then none else builtinTypes.find? (·.spellings.contains t.name)

end TypeName

/-- The canonical name of the built-in type that is spelled so: `int4` for `Integer[]`. -/
def canonicalTypeName? (spelling : String) : Option String :=
  (TypeName.read spelling).builtin?.map BuiltinType.name

def isBuiltinType (spelling : String) : Bool := (canonicalTypeName? spelling).isSome

/-- `t` in `n` dimensions of arrays; each has the PostgreSQL name that starts with an underscore. -/
def BuiltinType.arrays (t : BuiltinType) : (n : Nat) → SqlType
  | 0 => t.type.withPostgres t.name
  | n + 1 => (SqlType.array (t.arrays n)).withPostgres ("_" ++ t.name)

/-- The type of values of the built-in type, or array of one, that is spelled so. -/
def builtinType? (spelling : String) : Option SqlType :=
  let name := TypeName.read spelling
  name.builtin?.map (·.arrays name.dimensions)

end SqlTyping
