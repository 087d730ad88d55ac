import ResourceCli.Exchange.Load
import ResourceCli.Resource.Annotated
import ResourceCli.Resource.Survey

/-!
# Converting documents

Finds the resources of a document and writes the document with what was found declared in it.
-/

namespace ResourceCli

/-- The part of the program that converts documents. -/
def conversionTarget : String := "aepcli::cli::commands::openapi"

/-- The resources of a document, with what is noted down while they are found. -/
def findResources (doc : Document) (serverUrl : Option String) (pathPrefix : String) :
    Job ResourceGraph := do
  let (result, events) := doc.survey serverUrl pathPrefix
  Job.notes events
  Job.ofExcept result

/-- Converts a document.  The result is written to a file, or else it is the text to be printed. -/
def convertDocument (certificates : Nat) (input : String) (output : Option String)
    (pathPrefix : String) : Job String := do
  let doc ← loadDocument certificates input
  let graph ← findResources doc none pathPrefix
  let text := graph.annotatedText doc
  Job.notes graph.annotationNotes
  match output with
  | none => return text
  | some path =>
    Job.write path (text ++ "\n")
    Job.note ⟨.info, conversionTarget, "wrote converted document",
      [("output", .plain path), ("resources", .count graph.names.length)]⟩
    return ""

end ResourceCli
