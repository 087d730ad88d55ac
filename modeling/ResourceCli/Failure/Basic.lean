import ResourceCli.Json.Fault
import ResourceCli.Text.Quoted

/-!
# What can go wrong

Every failure of a run, as a cause with what it is about.  The wording is elsewhere
(`Failure.message`, `Failure.hint?`), so that a proof can speak of the cause alone.

The failures fall into five kinds (`FailureKind`), by what a user has to mend: the document, the
invocation, a file, the stored configuration, or the network.  Beside these stand the plain faults
of a file operation, of a reader and of an answer that breaks off; those have no kind.
-/

namespace ResourceCli

/-- The operation of a resource that is asked for. -/
inductive Method
  /-- Create one. -/
  | create
  /-- Get one. -/
  | get
  /-- Change one. -/
  | update
  /-- Delete one. -/
  | delete
  /-- List them. -/
  | list
  /-- Another operation, by its name. -/
  | custom (name : String)
  deriving DecidableEq, Repr, Inhabited

namespace Method

/-- The command that asks for a method. -/
def command : Method → String
  | create => "create"
  | get => "get"
  | update => "update"
  | delete => "delete"
  | list => "list"
  | custom name => ":" ++ name

/-- The method that a command asks for. -/
def ofCommand? (command : String) : Option Method :=
  match command.toList with
  | ':' :: name => some (custom (String.ofList name))
  | _ =>
    match command with
    | "create" => some create
    | "get" => some get
    | "update" => some update
    | "delete" => some delete
    | "list" => some list
    | _ => none

/-- The method as it is shown in diagnostics. -/
def shown : Method → String
  | create => "Create"
  | get => "Get"
  | update => "Update"
  | delete => "Delete"
  | list => "List"
  | custom name => "Custom(" ++ Text.quoted name ++ ")"

end Method

/-- The kinds of file fault that are told apart. -/
inductive FileFaultKind
  /-- There is no such file. -/
  | notFound
  /-- It may not be touched. -/
  | permissionDenied
  /-- Anything else. -/
  | other
  deriving DecidableEq, Repr

/-- A file operation that did not work. -/
structure FileFault where
  /-- Which kind of fault it is. -/
  kind : FileFaultKind
  /-- How the system words it. -/
  text : String
  deriving DecidableEq, Repr

/-- What is wrong with the arguments of a command. -/
inductive ArgumentFault
  /-- The command line does not have the command's form. -/
  | usage (line : String)
  /-- No method is named. -/
  | methodMissing
  /-- There is no such method. -/
  | methodUnknown (name : String)
  /-- The resource does not support the method. -/
  | methodUnsupported (method : Method)
  /-- The method addresses one resource, and no id says which. -/
  | idMissing
  /-- The verb is no HTTP verb. -/
  | verbInvalid
  /-- Anything else, in words. -/
  | stated (reason : String)
  deriving DecidableEq, Repr

/-- Why a document cannot be used. -/
inductive DocumentFault
  /-- The file cannot be read. -/
  | unreadable (location : String) (fault : FileFault)
  /-- Anything else, in words. -/
  | stated (reason : String)
  deriving DecidableEq, Repr

/-- Why the configuration cannot be used. -/
inductive ConfigFault
  /-- An API needs a name. -/
  | nameEmpty
  /-- The configuration file is malformed. -/
  | undecodable (path : String)
  /-- Anything else, in words. -/
  | stated (reason : String)
  deriving DecidableEq, Repr

/-- Why a request brought no answer. -/
inductive SendFault
  /-- The server cannot be reached. -/
  | unreachable (url : String)
  /-- The server of a document cannot be reached. -/
  | notConnected (location url : String)
  /-- No answer came in time. -/
  | timedOut (seconds : Nat)
  /-- The address is none that a request can be sent to. -/
  | notSendable (url : Option String)
  /-- The certificates to trust cannot be used. -/
  | certificatesUnusable
  /-- The server of a document answered with a failure. -/
  | refusedStatus (status : String) (location : String)
  /-- A document is too large. -/
  | tooLarge (size limit : Nat)
  /-- A document is no text. -/
  | notText (reason : String)
  /-- The answer breaks off. -/
  | bodyUnreadable
  /-- Anything else, in words. -/
  | stated (reason : String)
  deriving DecidableEq, Repr

/-- A failure of a run. -/
inductive Failure
  /-- A reference leads nowhere. -/
  | schemaNotFound (reference : String)
  /-- References lead back to where they started. -/
  | circularReference (reference : String)
  /-- Nothing says where requests go. -/
  | noServerUrl
  /-- A resource is declared to be contained in one that does not exist. -/
  | parentNotFound (resource parent : String)
  /-- A resource is declared to be contained in itself. -/
  | circularParent (resource : String)
  /-- A document cannot be used. -/
  | invalidDocument (fault : DocumentFault)
  /-- There is no such resource; perhaps another one was meant. -/
  | resourceNotFound (name : String) (available : List String) (suggestion : Option String)
  /-- Flags are missing. -/
  | missingInputs (resource : String) (flags : List String)
  /-- Flags are given beside a file that stands for all of them. -/
  | conflictingInputs (flags : List String)
  /-- A list whose items have no schema. -/
  | arrayWithoutItems (field : String)
  /-- The arguments of a command are wrong. -/
  | invalidArguments (command : String) (fault : ArgumentFault)
  /-- A file is asked for by the empty name. -/
  | emptyDataPath
  /-- A data file cannot be read. -/
  | dataFileUnreadable (path : String) (fault : FileFault)
  /-- A data file is malformed. -/
  | invalidDataJson (path : String) (defect : Json.Defect)
  /-- A data file holds no object. -/
  | dataNotObject (path : String)
  /-- A certificate file cannot be read. -/
  | caCertUnreadable (path : String) (fault : FileFault)
  /-- A certificate file holds no certificate. -/
  | invalidCaCert (path reason : String)
  /-- The configuration cannot be used. -/
  | invalidConfig (fault : ConfigFault)
  /-- An API of that name exists. -/
  | apiExists (name : String)
  /-- No API of that name exists. -/
  | apiNotFound (name : String)
  /-- A header is not written as key and value. -/
  | invalidHeader (header : String)
  /-- Nothing says where the home directory is. -/
  | homeDirectoryNotFound
  /-- A request brought no answer. -/
  | requestFailed (fault : SendFault)
  /-- The address of a request is malformed. -/
  | invalidUrl (url : String)
  /-- A header cannot be sent. -/
  | invalidHeaderValue (name : String)
  /-- A file operation did not work. -/
  | file (fault : FileFault)
  /-- A JSON text is malformed. -/
  | json (defect : Json.Defect)
  /-- A YAML text is malformed. -/
  | yaml
  /-- An answer breaks off. -/
  | answerCut

/-- The kinds of failure, by what has to be mended. -/
inductive FailureKind
  /-- The document. -/
  | document
  /-- The invocation. -/
  | validation
  /-- A file that the user named. -/
  | input
  /-- The stored configuration. -/
  | config
  /-- The network. -/
  | network
  deriving DecidableEq, Repr

/-- The name of a kind. -/
def FailureKind.name : FailureKind → String
  | document => "Document"
  | validation => "Validation"
  | input => "Input"
  | config => "Config"
  | network => "Network"

open FailureKind in
/-- The kind of a failure; the plain faults have none. -/
def Failure.kind? : Failure → Option FailureKind
  | schemaNotFound _ | circularReference _ | noServerUrl | parentNotFound _ _
  | circularParent _ | invalidDocument _ => some document
  | resourceNotFound _ _ _ | missingInputs _ _ | conflictingInputs _ | arrayWithoutItems _
  | invalidArguments _ _ => some validation
  | emptyDataPath | dataFileUnreadable _ _ | invalidDataJson _ _ | dataNotObject _
  | caCertUnreadable _ _ | invalidCaCert _ _ => some input
  | invalidConfig _ | apiExists _ | apiNotFound _ | invalidHeader _
  | homeDirectoryNotFound => some config
  | requestFailed _ | invalidUrl _ | invalidHeaderValue _ => some network
  | file _ | json _ | yaml | answerCut => none

end ResourceCli
