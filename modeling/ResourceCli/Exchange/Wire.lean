import ResourceCli.Run.Basic
import ResourceCli.Text.Hex
import ResourceCli.Text.Split

/-!
# Exchanges as bytes

A request as the bytes that go to a server, and the bytes that come back as a reply.  The server is
asked to close the connection, so that a reply ends where the bytes do; a body that is shorter than
announced has broken off.
-/

namespace ResourceCli

open Text (Bytes)

/-- A line of a message. -/
def wireLine (text : String) : Bytes := Text.utf8Encode (text ++ "\x0d\n")

/-- A header as a line of a message. -/
def headerLine (name : String) (value : Bytes) : Bytes :=
  Text.utf8Encode (name ++ ": ") ++ value ++ wireLine ""

/-- A request as bytes: `host` is whom it is for, and `target` what is asked of it. -/
def Outgoing.toWire (host target : String) (r : Outgoing) : Bytes :=
  wireLine (r.verb ++ " " ++ target ++ " HTTP/1.1") ++
    (r.headers.flatMap fun (name, value) => headerLine name value) ++
    wireLine "accept: */*" ++ wireLine ("host: " ++ host) ++
    (match r.body with
      | some body => wireLine s!"content-length: {body.length}"
      | none => []) ++
    wireLine "connection: close" ++ wireLine "" ++ r.body.getD []

/-- The part before a line break and the part after it. -/
def cutLine : Bytes → Option (Bytes × Bytes)
  | [] => none
  | 0x0D :: 0x0A :: rest => some ([], rest)
  | b :: rest => (cutLine rest).map fun (line, rest) => (b :: line, rest)

/-- The lines before an empty one, and what follows it. -/
def cutHead (fuel : Nat) (bytes : Bytes) : Option (List String × Bytes) :=
  match fuel with
  | 0 => none
  | fuel + 1 => do
    let (line, rest) ← cutLine bytes
    if line.isEmpty then return ([], rest)
    let (lines, rest) ← cutHead fuel rest
    return (Text.utf8Lossy line :: lines, rest)

/-- A header of a reply: its name in small letters, and its value. -/
def headerOf (line : String) : String × String :=
  match Text.cutFirst ':' line.toList with
  | some (name, value) =>
    (String.ofList (name.map Char.toLower),
      String.ofList (value.dropWhile (· == ' ')))
  | none => (line, "")

/-- The value of a number in hexadecimal digits at the front of a line. -/
def chunkSize? (line : Bytes) : Option Nat := do
  let digits := (Text.utf8Lossy line).toList.takeWhile fun c => (Text.hexValue? c).isSome
  guard (!digits.isEmpty)
  Text.digitsValue? 16 digits

/-- A body that comes in chunks, each behind a line with its size. -/
def joinChunks (fuel : Nat) (bytes : Bytes) : Option Bytes :=
  match fuel with
  | 0 => none
  | fuel + 1 => do
    let (line, rest) ← cutLine bytes
    let size ← chunkSize? line
    if size == 0 then return []
    guard (size ≤ rest.length)
    let (_, next) ← cutLine (rest.drop size)
    return rest.take size ++ (← joinChunks fuel next)

/-- The body of a reply, if it is whole. -/
def bodyOf (headers : List (String × String)) (rest : Bytes) : Option Bytes :=
  if (headers.lookup "transfer-encoding").isSome then joinChunks (rest.length + 1) rest
  else
    match (headers.lookup "content-length").bind String.toNat? with
    | some size => if size ≤ rest.length then some (rest.take size) else none
    | none => some rest

/-- The status in the first line of a reply. -/
def statusOf? (line : String) : Option Nat :=
  match Text.splitAt ' ' line with
  | _ :: status :: _ => status.toNat?
  | _ => none

/-- The reply that bytes make up; `duration` is how many milliseconds it took. -/
def Reply.ofWire? (duration : Nat) (bytes : Bytes) : Option Reply := do
  let (lines, rest) ← cutHead (bytes.length + 1) bytes
  let status ← statusOf? (← lines.head?)
  let headers := lines.tail.map headerOf
  return {
    status := status
    announced := (headers.lookup "content-length").bind String.toNat?
    body := bodyOf headers rest
    duration := duration }

end ResourceCli
