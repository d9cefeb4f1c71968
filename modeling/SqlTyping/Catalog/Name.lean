import SqlTyping.Text.Fold

/-!
# Names in the catalog
-/

namespace SqlTyping

/-- A name with an optional schema. A name without schema is looked up along a search path. -/
structure QualifiedName where
  schema : Option String
  name : String
deriving DecidableEq, Inhabited

namespace QualifiedName

/-- Can a record called `loaded` be meant by this name? Where one of the two has no schema, the
names alone decide. -/
def admits (wanted loaded : QualifiedName) : Bool :=
  Text.eqFold wanted.name loaded.name
    && match wanted.schema, loaded.schema with
      | some a, some b => Text.eqFold a b
      | _, _ => true

def render (n : QualifiedName) : String :=
  match n.schema with
  | some schema => schema ++ "." ++ n.name
  | none => n.name

/-- Is the name in the schema? -/
def isIn (schema : String) (n : QualifiedName) : Bool := n.schema.any (Text.eqFold · schema)

end QualifiedName

end SqlTyping
