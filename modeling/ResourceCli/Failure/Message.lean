import ResourceCli.Failure.Basic
import ResourceCli.Text.Split

/-!
# The wording of failures

What is said about each failure (`Failure.message`), and what a user may do about it
(`Failure.hint?`).
-/

namespace ResourceCli

/-- The wording of a fault in the arguments. -/
def ArgumentFault.message : ArgumentFault → String
  | usage line => line
  | methodMissing => "a method is required"
  | methodUnknown name => "unknown method '" ++ name ++ "'"
  | methodUnsupported method => "method " ++ method.shown ++ " is not supported"
  | idMissing => "an id is required"
  | verbInvalid => "invalid HTTP method"
  | stated reason => reason

/-- The wording of a fault of a document. -/
def DocumentFault.message : DocumentFault → String
  | unreadable location fault =>
    "unable to read OpenAPI document '" ++ location ++ "': " ++ fault.text
  | stated reason => reason

/-- The wording of a fault of the configuration. -/
def ConfigFault.message : ConfigFault → String
  | nameEmpty => "api name cannot be empty"
  | undecodable path => "unable to decode config file at " ++ path
  | stated reason => reason

/-- The place of a request in a message. -/
def forUrl (url : String) : String := " for url (" ++ url ++ ")"

/-- The wording of a request that brought no answer. -/
def SendFault.message : SendFault → String
  | unreachable url => "error sending request" ++ forUrl url
  | notConnected location url =>
    "Failed to connect to " ++ location ++ ": error sending request" ++ forUrl url
  | timedOut seconds => s!"Request timed out after {seconds} seconds"
  | notSendable url => "builder error" ++ (url.map forUrl).getD ""
  | certificatesUnusable => "Failed to create HTTP client: builder error"
  | refusedStatus status location => "HTTP " ++ status ++ " from " ++ location
  | tooLarge size limit => s!"Response too large: {size} bytes (max {limit} bytes)"
  | notText reason => "Invalid UTF-8 in response: " ++ reason
  | bodyUnreadable => "unable to read response body: error decoding response body"
  | stated reason => reason

/-- Flags as they are written on a command line, with commas between them. -/
def flagList (flags : List String) : String := Text.join ", " (flags.map ("--" ++ ·))

namespace Failure

/-- The wording of a failure. -/
def message : Failure → String
  | schemaNotFound reference => "schema \"" ++ reference ++ "\" not found"
  | circularReference reference =>
    "circular reference detected: \"" ++ reference ++ "\" is part of a reference cycle"
  | noServerUrl =>
    "no servers found in the OpenAPI definition. Cannot find a server to send a request to"
  | parentNotFound resource parent =>
    "resource \"" ++ resource ++ "\" parent \"" ++ parent ++ "\" not found"
  | circularParent resource => "resource \"" ++ resource ++ "\" is its own ancestor"
  | invalidDocument fault => fault.message
  | resourceNotFound name available _ =>
    "Resource \"" ++ name ++ "\" not found. Resources available: [" ++
      Text.join ", " available ++ "]"
  | missingInputs resource flags =>
    "missing required flag(s) for " ++ resource ++ ": " ++ flagList flags
  | conflictingInputs flags =>
    "--@data cannot be combined with individual field flags: " ++ flagList flags
  | arrayWithoutItems field =>
    "items is required for array type, not found for field " ++ field
  | invalidArguments command fault =>
    "invalid arguments for " ++ command ++ ": " ++ fault.message
  | emptyDataPath => "filename cannot be empty"
  | dataFileUnreadable path fault =>
    "unable to read file '" ++ path ++ "': " ++
      match fault.kind with
      | .notFound => "no such file or directory"
      | .permissionDenied => "permission denied"
      | .other => fault.text
  | invalidDataJson path defect =>
    "invalid JSON in '" ++ path ++ "': " ++ defect.cause.message ++
      s!" at line {defect.line}, column {defect.column}"
  | dataNotObject path =>
    "invalid JSON in '" ++ path ++ "': expected a JSON object at the top level"
  | caCertUnreadable path fault =>
    "Failed to read CA certificate from " ++ path ++ ": " ++
      match fault.kind with
      | .notFound => "file does not exist"
      | .permissionDenied => "permission denied"
      | .other => fault.text
  | invalidCaCert path reason =>
    "Failed to parse CA certificate from " ++ path ++ ": " ++ reason
  | invalidConfig fault => fault.message
  | apiExists name => "API with name '" ++ name ++ "' already exists"
  | apiNotFound name => "No API configuration found with name '" ++ name ++ "'"
  | invalidHeader header => "invalid header format: " ++ header
  | homeDirectoryNotFound => "unable to determine the home directory"
  | requestFailed fault => "unable to execute request: " ++ fault.message
  | invalidUrl url => "unable to create url: " ++ url
  | invalidHeaderValue name => "header '" ++ name ++ "' is not a valid HTTP header"
  | file fault => fault.text
  | json defect => defect.message
  | yaml => ""
  | answerCut => "error decoding response body"

/-- What may be done about a file that is not there. -/
def checkPath : String := "Check that the file path is correct and the file exists."

/-- What may be done about a file that may not be touched. -/
def checkPermissions : String :=
  "Check file permissions or run with appropriate privileges."

/-- What may be done about a file fault. -/
def fileHint? (fault : FileFault) : Option String :=
  match fault.kind with
  | .notFound => some checkPath
  | .permissionDenied => some checkPermissions
  | .other => none

/-- What may be done about a failure. -/
def hint? : Failure → Option String
  | noServerUrl => some "Pass --server-url or configure server_url for this API alias."
  | invalidDocument _ => some "Check that the OpenAPI document is valid JSON or YAML."
  | resourceNotFound _ _ suggestion => suggestion.map fun s => "Did you mean '" ++ s ++ "'?"
  | conflictingInputs _ =>
    some "Put every field in the data file, or drop --@data and use individual flags."
  | invalidArguments command _ =>
    some ("Use '" ++ command ++ " --help' to see the available commands and flags.")
  | dataFileUnreadable _ fault => fileHint? fault
  | caCertUnreadable path fault =>
    match fault.kind with
    | .notFound => some "Verify the file path is correct and that the file is readable."
    | .permissionDenied => some ("Check file permissions with: ls -l " ++ path)
    | .other => none
  | invalidCaCert path _ =>
    some ("Use 'openssl x509 -in " ++ path ++ " -text -noout' to verify the certificate.")
  | apiExists _ => some "Pass --overwrite to replace the existing configuration."
  | apiNotFound _ => some "Use 'aepcli core config list' to see configured APIs."
  | invalidHeader _ => some "Headers must be given as key=value."
  | file fault => fileHint? fault
  | json _ => some "Check that your OpenAPI document or response contains valid JSON."
  | yaml => some "Check that your OpenAPI document is valid YAML syntax."
  | _ => none

/-- The type of a failure in structured output. -/
def typeName (f : Failure) : String :=
  match f.kind?, f with
  | some kind, _ => kind.name
  | none, file _ => "FileSystem"
  | none, json _ => "JSONParsing"
  | none, yaml => "YAMLParsing"
  | none, _ => "Network"

/-- The failure in one line. -/
def display (f : Failure) : String :=
  (match f.kind?, f with
    | some kind, _ => kind.name
    | none, file _ => "I/O error"
    | none, json _ => "JSON parsing error"
    | none, yaml => "YAML parsing error"
    | none, _ => "Network error") ++ ": " ++ f.message

end Failure

end ResourceCli
