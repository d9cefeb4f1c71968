import SqlTyping.Json.Basic
import SqlTyping.Resolution.Problem

/-!
# Settings

Where the catalog is and how names are looked up in it.
-/

namespace SqlTyping

/-- How the database is reached. -/
structure CatalogSettings where
  /-- A connection string or URL. -/
  connection : String
  tls : Bool := false
deriving DecidableEq, Inhabited

structure Settings where
  defaultSchema : String := "public"
  /-- The schemas that names without schema are looked up in, in order. -/
  searchPath : List String := defaultSearchPath
  mode : ResolveMode := .strict
  catalog : Option CatalogSettings := none
deriving DecidableEq, Inhabited

/-- The environment variable with the connection string. -/
def databaseVariable : String := "SQLINFER_DATABASE_URL"

inductive SettingsError where
  /-- The text is no TOML, or a setting has the wrong type. -/
  | parse
  /-- The file cannot be read. -/
  | file
  | missingVariable (name : String)
deriving DecidableEq, Inhabited

def SettingsError.message : SettingsError → String
  | .parse => "Parse error"
  | .file => "IO error"
  | .missingVariable name => "Environment variable not set: " ++ name

namespace Settings

/-- The settings for the connection string of the environment, if there is one. A connection that
requires SSL is made with TLS. -/
def ofConnection : Option String → Except SettingsError Settings
  | none => .error (.missingVariable databaseVariable)
  | some connection =>
    let tls := Text.occurs "sslmode=require".toList connection.toList
    .ok { catalog := some { connection, tls } }

end Settings

/-! ## JSON -/

namespace CatalogSettings

def toJson (s : CatalogSettings) : Json :=
  .object [⟨"connection", .string s.connection⟩, ⟨"tls", .bool s.tls⟩]

def ofJson? (json : Json) : Option CatalogSettings := do
  return ⟨← json.require "connection" Json.asString?, ← json.allowD "tls" Json.asBool? false⟩

end CatalogSettings

namespace Settings

def toJson (s : Settings) : Json :=
  .object ([⟨"default_schema", .string s.defaultSchema⟩,
    ⟨"search_path", .ofList .string s.searchPath⟩, ⟨"mode", .string s.mode.name⟩]
    ++ s.catalog.toList.map fun c => ⟨"catalog", c.toJson⟩)

def ofJson? (json : Json) : Option Settings := do
  return {
    defaultSchema := ← json.allowD "default_schema" Json.asString? "public"
    searchPath := ← json.allowD "search_path" (Json.readList Json.asString?) defaultSearchPath
    mode := ← json.allowD "mode" (·.asString?.bind ResolveMode.ofName?) .strict
    catalog := ← json.allow "catalog" CatalogSettings.ofJson? }

end Settings

end SqlTyping
