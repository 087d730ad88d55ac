import ResourceCli.Alias.Basic
import ResourceCli.Exchange.Header
import ResourceCli.Exchange.Load
import ResourceCli.File.Path

/-!
# The file of the aliases

The aliases of a user are in one file.  A file that is not there holds none; one that cannot be
read or is malformed is a fault, so that nothing is written over it.  To store an alias is to read
the file, add the alias, and write the file anew; everything that can be wrong with the alias or
the file is found before anything is written.
-/

namespace ResourceCli

/-- The file of the aliases. -/
structure AliasStore where
  /-- The path of the file. -/
  file : String
  /-- The home directory, for which `~` stands. -/
  home : Option String := none
  /-- How the aliases are kept in the file. -/
  format : SettingsFormat := .toml

namespace AliasStore

/-- The part of the program that keeps the aliases. -/
def target : String := "aepcli::config::manager"

/-- The directory in which the paths of documents start. -/
def directory (store : AliasStore) : String := (Path.directory? store.file).getD "."

/-- Reads the aliases. -/
def load (store : AliasStore) : Job Settings := do
  if ← Job.has store.file then
    let text ← Job.readText store.file .file
    match store.format.read? text with
    | some settings => return settings
    | none => Job.fail (.invalidConfig (.undecodable store.file))
  else
    Job.note ⟨.debug, target, "config file does not exist, using default configuration",
      [("file", .plain store.file)]⟩
    return {}

/-- Writes the aliases. -/
def save (store : AliasStore) (settings : Settings) : Job Unit := do
  Job.makeDirectories store.directory
  Job.write store.file (store.format.write settings)

/-- Checks an alias by itself: it has a name, and its headers are well formed. -/
def check (a : ApiAlias) : Except Failure Unit := do
  if Text.trim a.name == "" then throw (.invalidConfig .nameEmpty)
  a.headers.forM fun header => discard (readHeader header)

/-- Stores an alias under its name. -/
def add (store : AliasStore) (a : ApiAlias) (overwrite : Bool) : Job Unit := do
  Job.ofExcept (check a)
  let settings ← store.load
  if (settings.find? a.name).isSome && !overwrite then Job.fail (.apiExists a.name)
  store.save (settings.insert a)

/-- The alias that is stored under a name. -/
def find? (store : AliasStore) (name : String) : Job (Option ApiAlias) :=
  (Settings.find? · name) <$> store.load

/-- The alias that is stored under a name, which has to be there. -/
def get (store : AliasStore) (name : String) : Job ApiAlias := do
  match ← store.find? name with
  | some a => return a
  | none => Job.fail (.apiNotFound name)

/-- All aliases, in order. -/
def list (store : AliasStore) : Job (List ApiAlias) :=
  (·.aliases.map Prod.snd) <$> store.load

/-- Where the document of an alias is: a path starts in the directory of the file. -/
def documentLocation (store : AliasStore) (a : ApiAlias) : String :=
  if isServerUrl a.document then a.document
  else Path.below store.directory (Path.expandHome store.home a.document)

end AliasStore

/-- The directory of the file of the aliases: the given one, or else one in the home directory. -/
def settingsDirectory (home given : Option String) : Except Failure String :=
  match given.filter (· != ""), home with
  | some directory, _ => .ok (Path.expandHome home directory)
  | none, some home => .ok (Path.below (Path.below home ".config") "aepcli")
  | none, none => .error .homeDirectoryNotFound

/-- The file of the aliases in a directory. -/
def settingsFile (directory : String) : String := Path.below directory "config.toml"

end ResourceCli
