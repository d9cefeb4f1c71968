import SqlTyping.Catalog.Record
import SqlTyping.TypeName.Builtin

/-!
# Requests

Names that a statement needs from the catalog, by kind, without repetitions and in the order in
which they came up.
-/

namespace SqlTyping

structure Requests where
  tables : List QualifiedName := []
  functions : List QualifiedName := []
  enums : List QualifiedName := []
  composites : List QualifiedName := []
deriving DecidableEq, Inhabited

namespace Requests

variable (r : Requests)

def isEmpty : Bool :=
  r.tables.isEmpty && r.functions.isEmpty && r.enums.isEmpty && r.composites.isEmpty

def length : Nat :=
  r.tables.length + r.functions.length + r.enums.length + r.composites.length

/-- The list with the name at its end, unless it is there. -/
def addName (names : List QualifiedName) (name : QualifiedName) : List QualifiedName :=
  if names.contains name then names else names ++ [name]

def addTable (name : QualifiedName) : Requests :=
  { r with tables := addName r.tables name }

def addFunction (name : QualifiedName) : Requests :=
  { r with functions := addName r.functions name }

/-- A type that is not built in is an enum or a composite type. -/
def addType (name : QualifiedName) : Requests :=
  { r with enums := addName r.enums name, composites := addName r.composites name }

/-- Asks for the type that is spelled so, unless it is built in. -/
def addTypeName (spelling : String) : Requests :=
  if (Text.trim spelling).isEmpty || isBuiltinType spelling then r
  else
    let name := TypeName.read spelling
    r.addType ⟨name.schema, name.name⟩

def append (r s : Requests) : Requests where
  tables := s.tables.foldl addName r.tables
  functions := s.functions.foldl addName r.functions
  enums := s.enums.foldl addName r.enums
  composites := s.composites.foldl addName r.composites

instance : Append Requests := ⟨append⟩

/-- All requests as keys, kind by kind. -/
def keys : List RecordKey :=
  r.tables.map (⟨.table, ·⟩) ++ r.functions.map (⟨.function, ·⟩) ++ r.enums.map (⟨.enum, ·⟩)
    ++ r.composites.map (⟨.composite, ·⟩)

def filter (keep : RecordKey → Bool) (r : Requests) : Requests where
  tables := r.tables.filter fun n => keep ⟨.table, n⟩
  functions := r.functions.filter fun n => keep ⟨.function, n⟩
  enums := r.enums.filter fun n => keep ⟨.enum, n⟩
  composites := r.composites.filter fun n => keep ⟨.composite, n⟩

end Requests

end SqlTyping
