import SqlTyping.Field

/-!
# TOML values and tables

`Toml` is what a document says. `TomlTable` is a table while the document is read: it knows how it
came about, since that decides what may still be added to it.
-/

namespace SqlTyping

inductive Toml where
  | string (value : String)
  | boolean (value : Bool)
  /-- A number or a date. Nothing depends on which. -/
  | scalar
  | array (items : List Toml)
  | table (entries : List (Field Toml))
deriving Inhabited

mutual

structure TomlTable where
  /-- Is the table only there because something is in it? -/
  implicit : Bool
  /-- Was the table made by a dotted key? -/
  dotted : Bool
  entries : List (Field TomlItem)

inductive TomlItem where
  | value (value : Toml)
  | table (table : TomlTable)
  /-- An array of tables, of which the last can still grow. -/
  | tables (before : List TomlTable) (last : TomlTable)

end

namespace TomlTable

variable (t : TomlTable)

def empty : TomlTable := ⟨false, false, []⟩

instance : Inhabited TomlTable := ⟨empty⟩

def find? (key : String) : Option TomlItem :=
  (t.entries.find? (·.name == key)).map Field.value

/-- The table with the entry for `key` replaced or added. -/
def set (key : String) (item : TomlItem) : TomlTable :=
  if (t.find? key).isSome then
    { t with entries := t.entries.map fun f => if f.name == key then ⟨key, item⟩ else f }
  else { t with entries := t.entries ++ [⟨key, item⟩] }

/-- Changes the table that a path leads to; tables that are missing on the way are made. In an array
of tables the path goes on in the last. A dotted path must not enter a table that is defined
elsewhere. -/
def modifyAt? (dotted : Bool) (change : TomlTable → Option TomlTable) :
    (path : List String) → TomlTable → Option TomlTable
  | [], t => change t
  | key :: rest, t =>
    match t.find? key with
    | none =>
      (modifyAt? dotted change rest ⟨true, dotted, []⟩).map fun child => t.set key (.table child)
    | some (.value _) => none
    | some (.tables before last) =>
      (modifyAt? dotted change rest last).map fun last => t.set key (.tables before last)
    | some (.table child) =>
      if dotted && !child.implicit then none
      else (modifyAt? dotted change rest child).map fun child => t.set key (.table child)

/-- Adds an entry for a key that may be dotted. A key can be defined only once, and a dotted key
only adds to tables that dotted keys have made. -/
def put? (path : List String) (key : String) (value : Toml) : Option TomlTable :=
  t.modifyAt? true (fun target =>
    if target.dotted == path.isEmpty || (target.find? key).isSome then none
    else some (target.set key (.value value))) path

/-- Adds the table of a header. It may exist already if it is implicit. -/
def openTable? (path : List String) (key : String) : Option TomlTable :=
  t.modifyAt? false (fun parent =>
    match parent.find? key with
    | none => some (parent.set key (.table empty))
    | some (.table child) =>
      if child.implicit && !child.dotted then
        some (parent.set key (.table { child with implicit := false }))
      else none
    | some _ => none) path

/-- Adds a table to the array of tables of a header. -/
def pushTable? (path : List String) (key : String) : Option TomlTable :=
  t.modifyAt? false (fun parent =>
    match parent.find? key with
    | none => some (parent.set key (.tables [] empty))
    | some (.tables before last) => some (parent.set key (.tables (before ++ [last]) empty))
    | some _ => none) path

end TomlTable

/-! ## The value of a table -/

mutual

def TomlTable.toToml : TomlTable → Toml
  | ⟨_, _, entries⟩ => .table (TomlItem.fieldsToToml entries)

def TomlTable.listToToml : List TomlTable → List Toml
  | [] => []
  | t :: rest => t.toToml :: TomlTable.listToToml rest

def TomlItem.toToml : TomlItem → Toml
  | .value v => v
  | .table t => t.toToml
  | .tables before last => .array (TomlTable.listToToml before ++ [last.toToml])

def TomlItem.fieldsToToml : List (Field TomlItem) → List (Field Toml)
  | [] => []
  | f :: rest => TomlItem.fieldToToml f :: TomlItem.fieldsToToml rest

def TomlItem.fieldToToml : Field TomlItem → Field Toml
  | ⟨name, item⟩ => ⟨name, item.toToml⟩

end

/-! ## Documents -/

/-- A line of a document. A path ends in a key. -/
inductive TomlLine where
  /-- `[path.key]`. -/
  | header (path : List String) (key : String)
  /-- `[[path.key]]`. -/
  | arrayHeader (path : List String) (key : String)
  /-- `path.key = value`. -/
  | entry (path : List String) (key : String) (value : Toml)

/-- The document after the lines, where entries belong to the table at `current`. -/
def TomlTable.readLines? : (current : List String) → List TomlLine → TomlTable → Option TomlTable
  | _, [], t => some t
  | _, .header path key :: rest, t => do
    (← t.openTable? path key).readLines? (path ++ [key]) rest
  | _, .arrayHeader path key :: rest, t => do
    (← t.pushTable? path key).readLines? (path ++ [key]) rest
  | current, .entry path key value :: rest, t => do
    (← t.modifyAt? false (·.put? path key value) current).readLines? current rest

/-- What the lines of a document say, if they do not contradict each other. -/
def Toml.ofLines? (lines : List TomlLine) : Option Toml :=
  (TomlTable.empty.readLines? [] lines).map TomlTable.toToml

end SqlTyping
