import ResourceCli.Alias.Store
import ResourceCli.Exchange.Service
import ResourceCli.Program.Conversion
import ResourceCli.Program.Options

/-!
# The target of a run

What a command line says about an API and what is stored under its alias come together in a
target.  The command line counts where both say something: its server and its prefix are used, and
its headers come first.

(Of several headers of one name the last one is sent, so that a stored header takes the place of
one that is given.)
-/

namespace ResourceCli

/-- What a run is about. -/
structure Target where
  /-- The path or URL of the document. -/
  location : String
  /-- The URL of the server, if not that of the document. -/
  serverUrl : Option String := none
  /-- What the paths of the document start with. -/
  pathPrefix : String := ""
  /-- The headers to be sent, as they are written. -/
  headers : List String := []
  deriving DecidableEq, Repr, Inhabited

namespace Target

/-- The target of a command line alone. -/
def ofOptions (o : Options) : Target where
  location := o.target
  serverUrl := o.serverUrl.filter (· != "")
  pathPrefix := o.pathPrefix.getD ""
  headers := o.headers

/-- The target with what an alias adds. -/
def withAlias (t : Target) (location : String) (a : ApiAlias) : Target where
  location := location
  serverUrl := t.serverUrl <|> (if a.serverUrl == "" then none else some a.serverUrl)
  pathPrefix := if t.pathPrefix == "" then a.pathPrefix else t.pathPrefix
  headers := t.headers ++ a.headers

end Target

/-- The part of the program that serves APIs on command. -/
def apiTarget : String := "aepcli::cli::commands::api"

/-- The target of a run. -/
def AliasStore.targetOf (store : AliasStore) (o : Options) : Job Target := do
  match ← store.find? o.target with
  | none => return Target.ofOptions o
  | some a =>
    Job.note ⟨.debug, apiTarget, "using configured API", [("alias", .plain a.name)]⟩
    return (Target.ofOptions o).withAlias (store.documentLocation a) a

/-- How the exchanges of a run are made. -/
def Options.exchangeSettings (o : Options) (certificates : Nat)
    (headers : List (String × String)) : ExchangeSettings where
  headers := headers
  showsRequests := o.showsRequests
  dryRun := o.dryRun
  certificateFile := o.certificateFile
  insecure := o.insecure
  systemCertificates := certificates

/-- Serves the API that a command line names. -/
def AliasStore.serveApi (store : AliasStore) (certificates : Nat) (o : Options) :
    Job ExchangeResult := do
  let t ← store.targetOf o
  let headers ← Job.ofExcept (t.headers.mapM readHeader)
  let doc ← loadDocument certificates t.location
  let graph ← findResources doc t.serverUrl t.pathPrefix
  Job.note ⟨.debug, apiTarget, "resolved resource graph",
    [("resources", .count graph.names.length), ("server_url", .plain graph.serverUrl)]⟩
  let settings := o.exchangeSettings certificates headers
  prepareExchange settings
  graph.serve settings o.words

end ResourceCli
