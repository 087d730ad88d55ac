import ResourceCli.Document.Read
import ResourceCli.Exchange.Send

/-!
# Where documents come from

A document is read from a file, or got from a server if its location is a URL.
-/

namespace ResourceCli

open Text (Bytes)

/-- Whether a location is the URL of a server. -/
def isServerUrl (location : String) : Bool :=
  (Text.stripStart "http://" location).isSome || (Text.stripStart "https://" location).isSome

/-- The part of the program that loads documents. -/
def loadTarget : String := "aepcli::spec::parser"

/-- The number of bytes that a document may have. -/
def documentLimit : Nat := 10 * 1024 * 1024

/-- What a fault means while a document is got from a server. -/
def documentFault (location : String) : SendFault → SendFault
  | .unreachable url => .notConnected location url
  | fault => fault

/-- The document that an answer holds. -/
def documentOf (location : String) (reply : Reply) : Except Failure String :=
  if !isSuccess reply.status then
    .error (.requestFailed (.refusedStatus (statusText reply.status) location))
  else if (reply.announced.getD 0) > documentLimit then
    .error (.requestFailed (.tooLarge (reply.announced.getD 0) documentLimit))
  else
    match reply.body with
    | none => .error .answerCut
    | some bytes =>
      if bytes.length > documentLimit then
        .error (.requestFailed (.tooLarge bytes.length documentLimit))
      else
        match Text.utf8Decode? bytes with
        | some text => .ok text
        | none => .error (.requestFailed (.notText (Text.decodeFault bytes)))

/-- Gets a document from a server. -/
def fetchText (certificates : Nat) (location : String) : Job String := do
  Job.note ⟨.debug, loadTarget, "fetching OpenAPI document", [("url", .quoted location)]⟩
  Job.notes (systemCertificateNotes certificates)
  match Url.read location with
  | none => Job.fail (.requestFailed (.notSendable none))
  | some url =>
    match ← sendTo url "GET" [] none with
    | .error fault => Job.fail (.requestFailed (documentFault location fault))
    | .ok reply => Job.ofExcept (documentOf location reply)

/-- The text of a document. -/
def loadText (certificates : Nat) (location : String) : Job String :=
  if isServerUrl location then fetchText certificates location
  else do
    Job.note ⟨.debug, loadTarget, "reading OpenAPI document", [("path", .plain location)]⟩
    Job.readText location fun fault => .invalidDocument (.unreadable location fault)

/-- Loads a document; `certificates` is how many certificates the system trusts. -/
def loadDocument (certificates : Nat) (location : String) : Job Document := do
  Job.ofExcept (Document.read (← loadText certificates location))

end ResourceCli
