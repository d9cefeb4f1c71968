import SqlTyping.Settings.Basic
import SqlTyping.Toml.Read

/-!
# Settings in TOML
-/

namespace SqlTyping

namespace Toml

def asString? : Toml → Option String
  | .string s => some s
  | _ => none

def asBool? : Toml → Option Bool
  | .boolean b => some b
  | _ => none

def asStrings? : Toml → Option (List String)
  | .array items => items.mapM asString?
  | _ => none

def isEmpty : Toml → Bool
  | .array items => items.isEmpty
  | .table entries => entries.isEmpty
  | _ => false

/-- The setting called `name`, or `fallback` if it is absent. -/
def setting (entries : List (Field Toml)) (name : String) (read : Toml → Option α) (fallback : α) :
    Option α :=
  match entries.find? (·.name == name) with
  | none => some fallback
  | some f => read f.value

end Toml

/-- The mode by its name. The name may also be the only key of a table whose value is empty. -/
def ResolveMode.ofToml? : Toml → Option ResolveMode
  | .string name => ofName? name
  | .table [⟨name, value⟩] => if value.isEmpty then ofName? name else none
  | _ => none

namespace CatalogSettings

/-- The settings by name, or in order. -/
def ofToml? : Toml → Option CatalogSettings
  | .table entries => do
    let connection ← entries.find? (·.name == "connection")
    return ⟨← connection.value.asString?, ← Toml.setting entries "tls" Toml.asBool? false⟩
  | .array (connection :: rest) => do
    return ⟨← connection.asString?, ← ((rest.head?.map Toml.asBool?).getD (some false))⟩
  | _ => none

end CatalogSettings

namespace Settings

/-- Settings that are absent have their defaults; what is no setting is ignored. -/
def ofToml? : Toml → Option Settings
  | .table entries => do
    let catalog (t : Toml) := (CatalogSettings.ofToml? t).map some
    return {
      defaultSchema := ← Toml.setting entries "default_schema" Toml.asString? "public"
      searchPath := ← Toml.setting entries "search_path" Toml.asStrings? defaultSearchPath
      mode := ← Toml.setting entries "mode" ResolveMode.ofToml? .strict
      catalog := ← Toml.setting entries "catalog" catalog none }
  | _ => none

/-- The settings in a document. -/
def read (text : String) : Except SettingsError Settings :=
  match (Toml.read? text).bind ofToml? with
  | some settings => .ok settings
  | none => .error .parse

/-! ## Writing -/

/-- Strings in brackets, on a line each if there are several. -/
def writeStrings (items : List String) : String :=
  match items.map TomlQuoted.write with
  | [] => "[]"
  | [item] => "[" ++ item ++ "]"
  | items => "[\n" ++ String.join (items.map fun item => "    " ++ item ++ ",\n") ++ "]"

def writeEntry (name value : String) : String := name ++ " = " ++ value ++ "\n"

def writeCatalog (c : CatalogSettings) : String :=
  "\n[catalog]\n" ++ writeEntry "connection" (TomlQuoted.write c.connection)
    ++ writeEntry "tls" (if c.tls then "true" else "false")

/-- The settings as a document. -/
def write (s : Settings) : String :=
  writeEntry "default_schema" (TomlQuoted.write s.defaultSchema)
    ++ writeEntry "search_path" (writeStrings s.searchPath)
    ++ writeEntry "mode" (TomlQuoted.write s.mode.name)
    ++ ((s.catalog.map writeCatalog).getD "")

end Settings

end SqlTyping
