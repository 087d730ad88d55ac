import ResourceCli.Text.Split

/-!
# URLs

The parts of a URL, each as it is written, and the text that they make together.
-/

namespace ResourceCli

/-- The host of a URL with what stands beside it. -/
structure Url.Authority where
  /-- The user, encoded. -/
  user : String := ""
  /-- The password, encoded. -/
  password : String := ""
  /-- The host. -/
  host : String
  /-- The port, if it is not the usual one. -/
  port : Option Nat := none
  deriving DecidableEq, Repr, Inhabited

/-- The path of a URL. -/
inductive Url.Path
  /-- A text that is not divided. -/
  | whole (text : String)
  /-- Segments, each behind a slash. -/
  | segments (segments : List String)
  deriving DecidableEq, Repr, Inhabited

/-- A URL. -/
structure Url where
  /-- The scheme. -/
  scheme : String
  /-- Where to ask, if that is told. -/
  authority : Option Url.Authority := none
  /-- What to ask for. -/
  path : Url.Path
  /-- The query. -/
  query : Option String := none
  /-- The place in what is got. -/
  fragment : Option String := none
  deriving DecidableEq, Repr, Inhabited

namespace Url

/-- The schemes whose URLs have a host and a path of segments, with their usual ports. -/
def specialPorts : List (String × Option Nat) :=
  [("http", some 80), ("https", some 443), ("ws", some 80), ("wss", some 443),
    ("ftp", some 21), ("file", none)]

/-- Whether the URLs of a scheme have a host and a path of segments. -/
def isSpecial (scheme : String) : Bool := (specialPorts.lookup scheme).isSome

/-- The usual port of a scheme. -/
def usualPort? (scheme : String) : Option Nat := (specialPorts.lookup scheme).join

/-- User and password as they stand before the host. -/
def Authority.credentials (a : Authority) : String :=
  if a.user == "" && a.password == "" then ""
  else a.user ++ (if a.password == "" then "" else ":" ++ a.password) ++ "@"

/-- The text of the host with what stands beside it. -/
def Authority.text (a : Authority) : String :=
  a.credentials ++ a.host ++
    match a.port with
    | none => ""
    | some port => ":" ++ toString port

/-- The text of a path. -/
def Path.text : Path → String
  | whole t => t
  | segments all => String.join (all.map ("/" ++ ·))

/-- What stands between scheme and path: the host, or what keeps two slashes of the path from
being taken for the start of one. -/
def lead (u : Url) : String :=
  match u.authority, u.path with
  | some a, _ => "//" ++ a.text
  | none, .segments ("" :: _ :: _) => "/."
  | none, _ => ""

/-- The path and what follows it. -/
def target (u : Url) : String :=
  u.path.text ++ (u.query.map ("?" ++ ·)).getD ""

/-- The text of a URL. -/
def text (u : Url) : String :=
  u.scheme ++ ":" ++ u.lead ++ u.target ++ (u.fragment.map ("#" ++ ·)).getD ""

end Url

end ResourceCli
