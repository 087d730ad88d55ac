import ResourceCli.Document.Typed
import ResourceCli.Json.Basic
import ResourceCli.Shape.Toml
import ResourceCli.Toml.Write

/-!
# Aliases

An alias is an API under a name: where its document is, and what goes with every request to it.
The aliases of a user are kept in a file, in the order of their names.

How they look in the file is a format (`SettingsFormat`) of its own, so that what can be said of
the aliases does not hang on it; the one that is used is TOML, a table for each alias.
-/

namespace ResourceCli

/-- An API under a name. -/
structure ApiAlias where
  /-- The name. -/
  name : String
  /-- The path or URL of the document. -/
  document : String := ""
  /-- The URL of the server, if not that of the document. -/
  serverUrl : String := ""
  /-- The headers to be sent with every request. -/
  headers : List String := []
  /-- What the paths of the document start with. -/
  pathPrefix : String := ""
  deriving DecidableEq, Repr, Inhabited

/-- The stored aliases, in the order of the names that they are stored under. -/
structure Settings where
  /-- The aliases. -/
  aliases : List (String × ApiAlias) := []
  deriving DecidableEq, Repr, Inhabited

namespace Settings

/-- The alias that is stored under a name. -/
def find? (s : Settings) (name : String) : Option ApiAlias := s.aliases.lookup name

/-- The settings with an alias under its name. -/
def insert (s : Settings) (a : ApiAlias) : Settings :=
  { s with aliases := Json.insertSorted a.name a s.aliases }

end Settings

/-- How settings are kept as a text. -/
structure SettingsFormat where
  /-- The text of settings. -/
  write : Settings → String
  /-- The settings of a text, if it is well formed. -/
  read? : String → Option Settings

/-- An alias from typed data. -/
def ApiAlias.ofTree : Tree → ApiAlias
  | .record [name, document, serverUrl, headers, pathPrefix] => {
      name := Tree.textOf name
      document := Tree.textOf document
      serverUrl := Tree.textOf serverUrl
      headers := Tree.textsOf headers
      pathPrefix := Tree.textOf pathPrefix }
  | _ => { name := "" }

namespace Settings

/-- Settings from typed data. -/
def ofTree : Tree → Settings
  | .record [some (.table entries)] =>
    { aliases := entries.foldl (fun done (name, t) =>
        Json.insertSorted name (ApiAlias.ofTree t) done) [] }
  | _ => {}

/-- Settings from TOML. -/
def ofToml? (text : String) : Option Settings := do
  return ofTree (← Shape.ofToml? (.record .settings) (← Toml.read? text))

/-- The table of an alias; what is empty and may be is left out. -/
def tableText (name : String) (a : ApiAlias) : String :=
  let texts key value := if value == "" then "" else Toml.entryText key (Toml.textText value)
  Toml.headerText ["apis", name] ++
    Toml.entryText "name" (Toml.textText a.name) ++
    Toml.entryText "openapi_path" (Toml.textText a.document) ++
    texts "server_url" a.serverUrl ++
    (if a.headers.isEmpty then "" else Toml.entryText "headers" (Toml.textsText a.headers)) ++
    texts "path_prefix" a.pathPrefix

/-- Settings as TOML. -/
def toToml (s : Settings) : String :=
  match s.aliases with
  | [] => Toml.headerText ["apis"]
  | aliases => Text.join "\n" (aliases.map fun (name, a) => tableText name a)

end Settings

/-- Settings as TOML. -/
def SettingsFormat.toml : SettingsFormat := ⟨Settings.toToml, Settings.ofToml?⟩

end ResourceCli
