import ResourceCli.Call.Request
import ResourceCli.Text.Blank
import ResourceCli.Text.Case

/-!
# Headers

The headers of a request: the one that says what is sent along, and those that the user gives as
`key=value`.  Their names are compared without regard to case, and of several values for one name
the last one counts (`setHeader`).

The values of some headers are secrets; where headers are shown, these are not
(`shownValue`).
-/

namespace ResourceCli

open Text (Bytes)

/-- The headers of a request, with names in small letters, in the order in which the names were
given first. -/
abbrev Headers := List (String × Bytes)

/-- Reads a header that is given as `key=value`. -/
def readHeader (header : String) : Except Failure (String × String) :=
  match Text.cutFirst '=' header.toList with
  | none => .error (.invalidHeader header)
  | some (key, value) =>
    let name := Text.trim (String.ofList key)
    if name == "" then .error (.invalidHeader header) else .ok (name, String.ofList value)

/-- The names of headers whose values are secrets, in small letters. -/
def secretHeaders : List String :=
  ["authorization", "proxy-authorization", "cookie", "x-api-key", "x-access-token",
    "x-auth-token", "api-key", "api_key", "token", "secret", "password"]

/-- Whether the value of a header is a secret. -/
def isSecretHeader (name : String) : Bool := secretHeaders.contains (Text.lowercase name)

/-- What is shown in place of a secret. -/
def redacted : String := "[REDACTED]"

/-- The value of a header as it may be shown. -/
def shownValue (name : String) (value : Bytes) : String :=
  if isSecretHeader name then redacted else Text.utf8Lossy value

/-- The length to which names of headers are limited. -/
def headerNameLimit : Nat := 65535

/-- The name of a header in small letters, if it can be sent. -/
def headerName? (name : String) : Option String :=
  if isVerb name && name.utf8ByteSize ≤ headerNameLimit then
    some (String.ofList (name.toList.map Char.toLower))
  else none

/-- Whether a value can be sent: it has no control characters other than tabs. -/
def isHeaderValue (value : String) : Bool :=
  value.toList.all fun c => c == '\t' || (0x20 ≤ c.toNat && c.toNat != 0x7F)

/-- The headers with a value for a name in place of the one before, if there is one. -/
def setHeader (name : String) (value : Bytes) : Headers → Headers
  | [] => [(name, value)]
  | (key, old) :: rest =>
    if key == name then (key, value) :: rest else (key, old) :: setHeader name value rest

/-- The value of a header after one is set: the new one for its name, and for other names what it
was before. -/
theorem lookup_setHeader (name other : String) (value : Bytes) (headers : Headers) :
    (setHeader name value headers).lookup other =
      if other = name then some value else headers.lookup other := by
  induction headers with
  | nil =>
    by_cases h : other = name
    · subst h; simp [setHeader]
    · have : (other == name) = false := by simpa using h
      simp [setHeader, List.lookup_cons, h, this]
  | cons x xs ih =>
    obtain ⟨key, old⟩ := x
    by_cases hk : key = name
    · subst hk
      by_cases h : other = key
      · subst h; simp [setHeader]
      · have : (other == key) = false := by simpa using h
        simp [setHeader, List.lookup_cons, h, this]
    · by_cases ho : other = key
      · subst ho
        have : (other == name) = false := by simpa using hk
        simp [setHeader, hk]
      · have : (other == key) = false := by simpa using ho
        simp [setHeader, hk, List.lookup_cons, this, ih]

/-- What a request sends along is: a change to be merged in, or else a whole. -/
def contentType (verb : String) : String :=
  if verb == "PATCH" then "application/merge-patch+json" else "application/json"

/-- The headers with further ones, each of which has to be one that can be sent. -/
def addHeaders (headers : Headers) : List (String × String) → Except Failure Headers
  | [] => .ok headers
  | (name, value) :: rest =>
    match headerName? name with
    | none => .error (.invalidHeaderValue name)
    | some key =>
      if isHeaderValue value then addHeaders (setHeader key (Text.utf8Encode value) headers) rest
      else .error (.invalidHeaderValue name)

/-- The headers of a request. -/
def headersFor (verb : String) (given : List (String × String)) : Except Failure Headers :=
  addHeaders [("content-type", Text.utf8Encode (contentType verb))] given

end ResourceCli
