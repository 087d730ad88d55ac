import ResourceCli.Call.Reading
import ResourceCli.Exchange.Send
import ResourceCli.Resource.Graph

/-!
# The commands of an API

The first word of a command line names a resource of the API; the others are for its command.
Without words, or if help is asked for, the resources are listed.
-/

namespace ResourceCli.ResourceGraph

/-- How the commands of an API are used, with all of its resources. -/
def overview (g : ResourceGraph) : String :=
  "Usage: [resource] [method] [flags]\n\nCommand group for " ++ g.serverUrl ++
    "\n\nAvailable resources:\n" ++
    String.join (g.names.map fun name => "  - " ++ name ++ "\n")

/-- The words that ask for help. -/
def helpWords : List String := ["--help", "-h", "help"]

/-- Does what the words of a command line ask of an API. -/
def serve (g : ResourceGraph) (s : ExchangeSettings) (words : List String) :
    Job ExchangeResult :=
  match words with
  | [] => return { output := g.overview }
  | name :: rest =>
    if helpWords.contains name then return { output := g.overview }
    else
      match g.find name with
      | .error failure => throw { failure := failure, details := some g.overview }
      | .ok r => do
        match ← r.compile rest with
        | .description text => return { output := text }
        | .request request => exchange s g.serverUrl request

end ResourceCli.ResourceGraph
