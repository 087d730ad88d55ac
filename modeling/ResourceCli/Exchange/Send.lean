import ResourceCli.Exchange.Header
import ResourceCli.Exchange.Status
import ResourceCli.Json.Read
import ResourceCli.Run.Basic
import ResourceCli.Url.Read

/-!
# Exchanges with a server

A request goes to its address below the URL of the server.  Everything up to the sending is
decided by values: the address (`Request.address`), the headers, and the text by which the request
is shown.  A dry run stops there.

Secrets among the headers reach the server and nothing else: what is printed does not mention
headers, and what is noted down shows them by `shownValue` (`requestNotes`).
-/

namespace ResourceCli

open Text (Bytes)

/-- How exchanges are made. -/
structure ExchangeSettings where
  /-- The headers that the user gives. -/
  headers : List (String × String) := []
  /-- Whether requests are printed. -/
  showsRequests : Bool := false
  /-- Whether nothing is sent. -/
  dryRun : Bool := false
  /-- The file with a certificate to trust beside those of the system. -/
  certificateFile : Option String := none
  /-- Whether every certificate is trusted. -/
  insecure : Bool := false
  /-- How many certificates the system trusts. -/
  systemCertificates : Nat := 0
  deriving Repr, Inhabited

/-- What an exchange comes to. -/
structure ExchangeResult where
  /-- What is to be printed. -/
  output : String
  /-- The status of the answer, or zero if there was no exchange. -/
  status : Nat := 0
  deriving DecidableEq, Repr, Inhabited

/-- Whether the server answered with a failure. -/
def ExchangeResult.isFailure (r : ExchangeResult) : Bool := r.status != 0 && !isSuccess r.status

/-- The address of a request. -/
def Request.address (serverUrl : String) (r : Request) : String :=
  Text.dropEndChar '/' serverUrl ++ "/" ++ Text.dropStartChar '/' r.path ++
    match r.query with
    | none => ""
    | some query => if query == "" then "" else "?" ++ query

/-- A request as it is printed: verb and address, then what is sent along. -/
def requestText (verb url : String) (body : Option String) : String :=
  "Request: " ++ verb ++ " " ++ url ++ "\n" ++ body.getD ""

/-- The body of an answer as it is printed: JSON on indented lines, anything else as it is. -/
def formatBody (body : String) : String :=
  match Json.read body with
  | .ok v => v.pretty
  | .error _ => body

/-- The part of the program that notes down exchanges. -/
def exchangeTarget : String := "aepcli::executor"

/-- The part of the program that prepares exchanges. -/
def preparationTarget : String := "aepcli::engine::executor"

/-- What is noted down about a request. -/
def requestNotes (verb url : String) (headers : Headers) (body : Option String) :
    List Log.Event :=
  [⟨.debug, exchangeTarget, "→ " ++ verb ++ " " ++ url, []⟩] ++
    (headers.map fun (name, value) =>
      ⟨.trace, exchangeTarget, "  " ++ name ++ ": " ++ shownValue name value, []⟩) ++
    match body with
    | none => []
    | some body => [⟨.trace, exchangeTarget, "Request body: " ++ body, []⟩]

/-- The number of bytes of a body that are noted down. -/
def notedBytes : Nat := 1000

/-- The characters that fit into a number of bytes. -/
def fitting (room : Nat) : List Char → List Char
  | [] => []
  | c :: cs => if c.utf8Size ≤ room then c :: fitting (room - c.utf8Size) cs else []

/-- What is noted down about an answer. -/
def replyNotes (status duration : Nat) (body : String) : List Log.Event :=
  [⟨.debug, exchangeTarget, s!"← {status} ({duration}ms)", []⟩,
    ⟨.trace, exchangeTarget,
      if body.utf8ByteSize > notedBytes then
        "Response body: " ++ String.ofList (fitting notedBytes body.toList) ++
          s!" (truncated at {notedBytes} bytes)"
      else "Response body: " ++ body, []⟩]

/-- What is noted down when the certificates of the system are looked up. -/
def systemCertificateNotes (count : Nat) : List Log.Event :=
  [⟨.debug, "rustls::webpki::anchors",
      s!"add_parsable_certificates processed {count} valid and 0 invalid certs", []⟩,
    ⟨.debug, "rustls_platform_verifier::verification::others",
      s!"Loaded {count} CA root certificates from the system", []⟩]

/-- How a certificate begins. -/
def certificateMark : String := "-----BEGIN CERTIFICATE-----"

/-- Makes sure that a certificate file can be used. -/
def checkCertificate (path : String) : Job Unit := do
  Job.note ⟨.debug, preparationTarget, "loading custom CA certificate", [("path", .plain path)]⟩
  let bytes ← Job.readBytes path (.caCertUnreadable path)
  let text := Text.utf8Lossy bytes
  if !Text.occurs certificateMark.toList text.toList then
    Job.fail (.invalidCaCert path "not valid PEM format")
  if (Text.lines text).any fun line => (Text.stripStart certificateMark line).isSome then
    Job.fail (.requestFailed .certificatesUnusable)

/-- Gets ready for exchanges. -/
def prepareExchange (s : ExchangeSettings) : Job Unit :=
  if s.insecure then
    Job.note ⟨.debug, preparationTarget,
      "TLS certificate verification disabled (insecure mode)", []⟩
  else do
    match s.certificateFile with
    | some path => checkCertificate path
    | none => Job.note ⟨.debug, preparationTarget, "using system CA certificates", []⟩
    Job.notes (systemCertificateNotes s.systemCertificates)

/-- The URL without user and password.  They are not part of the address that is asked for: the
client takes them off the URL and sends them in a header that it makes itself. -/
def Url.withoutCredentials (u : Url) : Url :=
  { u with authority := u.authority.map fun a => { a with user := "", password := "" } }

/-- Whether a request can be sent to a URL. -/
def Url.isSendable (u : Url) : Bool := u.scheme == "http" || u.scheme == "https"

/-- Hands a request to the client, which sends it to where it can. -/
def sendTo (url : Url) (verb : String) (headers : Headers) (body : Option Bytes) :
    Job (Except SendFault Reply) :=
  let shown := url.withoutCredentials.text
  if url.isSendable then Job.ofRun (.send ⟨verb, shown, headers, body⟩ .done)
  else pure (.error (.notSendable (some shown)))

/-- The text of an answer's body. -/
def bodyText (bytes : Bytes) : String :=
  match bytes with
  | 0xEF :: 0xBB :: 0xBF :: rest => Text.utf8Lossy rest
  | _ => Text.utf8Lossy bytes

/-- Makes an exchange, or only shows its request. -/
def exchange (s : ExchangeSettings) (serverUrl : String) (r : Request) :
    Job ExchangeResult := do
  let address := r.address serverUrl
  match Url.read address with
  | none => Job.fail (.invalidUrl address)
  | some url =>
    let headers ← Job.ofExcept (headersFor r.verb s.headers)
    let shownBody := r.body.map Text.utf8Lossy
    Job.notes (requestNotes r.verb url.text headers shownBody)
    let shown := if s.showsRequests then requestText r.verb url.text shownBody ++ "\n" else ""
    if s.dryRun then
      Job.note ⟨.debug, preparationTarget, "dry run: not making request", []⟩
      return { output := shown }
    else
      match ← sendTo url r.verb headers r.body with
      | .error fault => Job.fail (.requestFailed fault)
      | .ok reply =>
        match reply.body with
        | none => Job.fail (.requestFailed .bodyUnreadable)
        | some bytes =>
          let text := bodyText bytes
          Job.notes (replyNotes reply.status reply.duration text)
          return { output := shown ++ formatBody text, status := reply.status }

end ResourceCli
