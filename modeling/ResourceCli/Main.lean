import ResourceCli.Exchange.Wire
import ResourceCli.File.Disk
import ResourceCli.Program.Basic
import ResourceCli.Url.Read
import Std.Async.DNS
import Std.Async.TCP
import Std.Time.Format
import Std.Time.Zoned

/-!
# Running the program

Carries out what a run asks for on a real system, and nothing else: what is asked, and what is done
with the answers, is decided by the run.  Requests go out over plain connections only.
-/

namespace ResourceCli

open Text (Bytes)

/-- The fault of a code of the system, which some of its libraries give as a negative number. -/
def faultOfCode (kind : FileFaultKind) (code : UInt32) (details : String) : FileFault :=
  let number := if code < 0x80000000 then code else 0 - code
  ⟨kind, Text.capitalize details ++ s!" (os error {number})"⟩

/-- A fault of the system. -/
def faultOf : IO.Error → FileFault
  | .noFileOrDirectory _ code details => faultOfCode .notFound code details
  | .permissionDenied _ code details => faultOfCode .permissionDenied code details
  | .alreadyExists _ code details => faultOfCode .other code details
  | .inappropriateType _ code details => faultOfCode .other code details
  | .invalidArgument _ code details => faultOfCode .other code details
  | .resourceExhausted _ code details => faultOfCode .other code details
  | .noSuchThing _ code details => faultOfCode .other code details
  | .interrupted _ code details => faultOfCode .other code details
  | .otherError code details => faultOfCode .other code details
  | .resourceBusy code details => faultOfCode .other code details
  | .hardwareFault code details => faultOfCode .other code details
  | .illegalOperation code details => faultOfCode .other code details
  | .unsupportedOperation code details => faultOfCode .other code details
  | e => ⟨.other, toString e⟩

/-- The result of an action, or its fault. -/
def attempt {α : Type} (action : IO α) : IO (Except FileFault α) := do
  try
    return .ok (← action)
  catch e =>
    return .error (faultOf e)

/-- The bytes of a file. -/
def readFileBytes (path : String) : IO Bytes := do
  return (← IO.FS.readBinFile path).toList

/-- Writes at the end of a file. -/
def appendToFile (path text : String) : IO Unit :=
  IO.FS.withFile path .append fun file => file.putStr text

/-- Whether there is something at a path. -/
def isThere (path : String) : IO Bool := do
  try
    discard (IO.FS.realPath path)
    return true
  catch _ =>
    return false

/-- The time in words. -/
def timeInWords : IO String := do
  let now ← Std.Time.Timestamp.now
  return (Std.Time.DateTime.ofTimestamp now Std.Time.TimeZone.ZoneRules.UTC).format
    "uuuu-MM-dd'T'HH:mm:ss.SSSSSS'Z'"

/-- The address of a host at a port. -/
def addressAt (port : Nat) : Std.Net.IPAddr → Std.Net.SocketAddress
  | .v4 a => .v4 ⟨a, port.toUInt16⟩
  | .v6 a => .v6 ⟨a, port.toUInt16⟩

/-- All bytes that come over a connection. -/
partial def receiveAll (socket : Std.Async.TCP.Socket.Client) (done : ByteArray) :
    Std.Async.Async ByteArray := do
  match ← socket.recv? 65536 with
  | some bytes => receiveAll socket (done ++ bytes)
  | none => return done

/-- Sends bytes to a host, and gives the bytes that come back. -/
def askServer (host : String) (port : Nat) (bytes : ByteArray) :
    Std.Async.Async ByteArray := do
  let addresses ← Std.Async.DNS.getAddrInfo host (toString port)
  match addresses[0]? with
  | none => throw (IO.userError "no address")
  | some address =>
    let socket ← Std.Async.TCP.Socket.Client.mk
    socket.connect (addressAt port address)
    socket.send bytes
    receiveAll socket ByteArray.empty

/-- Sends a request. -/
def sendRequest (r : Outgoing) : IO (Except SendFault Reply) := do
  let unreachable : Except SendFault Reply := .error (.unreachable r.url)
  match Url.read r.url with
  | some { scheme := "http", authority := some a, path := path, query := query, .. } =>
    try
      let target := path.text ++ (query.map ("?" ++ ·)).getD ""
      let start ← IO.monoMsNow
      let bytes ← (askServer a.host (a.port.getD 80)
        ⟨(r.toWire a.text target).toArray⟩).block
      let stop ← IO.monoMsNow
      match Reply.ofWire? (stop - start) bytes.toList with
      | some reply => return .ok reply
      | none => return unreachable
    catch _ =>
      return unreachable
  | _ => return unreachable

/-- Carries out a run. -/
def Run.carryOut {α : Type} : Run α → IO α
  | .done result => return result
  | .note _ next => next.carryOut
  | .print .output text next => do
    (← IO.getStdout).putStr text
    next.carryOut
  | .print .errors text next => do
    (← IO.getStderr).putStr text
    next.carryOut
  | .readText path next => do
    let bytes ← attempt (readFileBytes path)
    let text := bytes.bind fun bytes =>
      match Text.utf8Decode? bytes with
      | some text => .ok text
      | none => .error .notText
    (next text).carryOut
  | .readBytes path next => do (next (← attempt (readFileBytes path))).carryOut
  | .write path text next => do (next (← attempt (IO.FS.writeFile path text))).carryOut
  | .append path text next => do (next (← attempt (appendToFile path text))).carryOut
  | .makeDirectories path next => do (next (← attempt (IO.FS.createDirAll path))).carryOut
  | .has path next => do (next (← isThere path)).carryOut
  | .time next => do (next (← timeInWords)).carryOut
  | .send request next => do (next (← sendRequest request)).carryOut

/-- The variables that the program looks at. -/
def variableNames : List String :=
  ["AEPCLI_CONFIG_DIR", "AEPCLI_LOG", "AEPCLI_LOG_FORMAT", "AEPCLI_LOG_FILE"]

/-- What the system starts the program with. -/
def currentEnvironment : IO Environment := do
  let bindings ← variableNames.filterMapM fun name => do
    return (← IO.getEnv name).map fun value => (name, value)
  return { home := (← IO.getEnv "HOME").filter (· != ""), bindings := bindings }

end ResourceCli

/-- Runs the program. -/
def main (words : List String) : IO UInt32 := do
  let env ← ResourceCli.currentEnvironment
  let code ← (ResourceCli.program env (ResourceCli.programName :: words)).carryOut
  return code.toNat.toUInt32
