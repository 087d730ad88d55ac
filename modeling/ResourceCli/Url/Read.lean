import ResourceCli.Url.Basic
import ResourceCli.Url.Host

/-!
# Reading a URL

A text is read into the parts of a URL from the left: the scheme up to a colon; the host between
two slashes and the next one; the path; the query behind a question mark; the fragment behind a
number sign.  Blanks around the text, and tabs and line breaks anywhere in it, are passed over.

On the way each part takes its written form: characters that may not stand in it are encoded, and
the segments `.` and `..` of a path are carried out (`normalSegments`).
-/

namespace ResourceCli.Url

/-- Whether a character stands for itself in a fragment. -/
def keptInFragment (c : Char) : Bool :=
  0x20 < c.toNat && c.toNat < 0x7F && !"\"<>\x60".toList.contains c

/-- Whether a character stands for itself in a path. -/
def keptInPath (c : Char) : Bool := keptInFragment c && !"#?\x7b\x7d".toList.contains c

/-- Whether a character stands for itself in a name or password. -/
def keptInCredentials (c : Char) : Bool := keptInPath c && !"/:;=@[\\]^|".toList.contains c

/-- Whether a character stands for itself in a query. -/
def keptInQuery (special : Bool) (c : Char) : Bool :=
  0x20 < c.toNat && c.toNat < 0x7F && !"\"#<>".toList.contains c && !(special && c == '\'')

/-- Whether a character stands for itself in a path that is not divided. -/
def keptInWhole (c : Char) : Bool := 0x20 ≤ c.toNat && c.toNat < 0x7F

/-- An encoded part. -/
def encoded (keeps : Char → Bool) (cs : List Char) : String :=
  String.ofList (percentEncode keeps cs)

/-- Whether a character is passed over at the ends of a text. -/
def isPadding (c : Char) : Bool := c.toNat ≤ 0x20

/-- The characters of a text that are read. -/
def significant (text : String) : List Char :=
  let cs := (text.toList.dropWhile isPadding).reverse
  (cs.dropWhile isPadding).reverse.filter fun c => !(c == '\t' || c == '\n' || c == '\r')

/-- Whether a character may stand in a scheme. -/
def isSchemeChar (c : Char) : Bool := c.isAlphanum || c == '+' || c == '-' || c == '.'

/-- The scheme, and what follows its colon. -/
def cutScheme (cs : List Char) : Option (String × List Char) :=
  match Text.cutFirst ':' cs with
  | some (c :: name, rest) =>
    if c.isAlpha && name.all isSchemeChar then
      some (String.ofList ((c :: name).map Char.toLower), rest)
    else none
  | _ => none

/-- Whether a character separates the segments of a path. -/
def isSlash (special : Bool) (c : Char) : Bool := c == '/' || (special && c == '\\')

/-- Whether the path of a URL ends before a character. -/
def endsPath (c : Char) : Bool := c == '?' || c == '#'

/-- Whether a segment names the segment's own directory. -/
def isHere (segment : String) : Bool := [".", "%2e", "%2E"].contains segment

/-- Whether a segment names the directory above. -/
def isAbove (segment : String) : Bool :=
  ["..", ".%2e", ".%2E", "%2e.", "%2E.", "%2e%2e", "%2e%2E", "%2E%2e", "%2E%2E"].contains segment

/-- The segments of a path with those that name directories carried out; `before` are the segments
so far, the last one first.  A path that ends with such a segment ends with a slash. -/
def normalFrom (before : List String) : List String → List String
  | [] => before.reverse
  | [last] =>
    if isAbove last then ("" :: before.drop 1).reverse
    else if isHere last then ("" :: before).reverse
    else (last :: before).reverse
  | segment :: rest =>
    if isAbove segment then normalFrom (before.drop 1) rest
    else if isHere segment then normalFrom before rest
    else normalFrom (segment :: before) rest

/-- The segments of a path with those that name directories carried out. -/
def normalSegments (segments : List String) : List String := normalFrom [] segments

/-- The stretches between the slashes. -/
def segmentsOf (special : Bool) : List Char → List (List Char)
  | [] => [[]]
  | c :: cs =>
    if isSlash special c then [] :: segmentsOf special cs
    else
      match segmentsOf special cs with
      | first :: rest => (c :: first) :: rest
      | [] => [[c]]

/-- The path that characters behind the first slash make. -/
def pathOf (special : Bool) (cs : List Char) : Path :=
  .segments (normalSegments ((segmentsOf special cs).map (encoded keptInPath)))

/-- The path behind a host. -/
def pathBehindHost (special : Bool) (cs : List Char) : Path :=
  match cs with
  | [] => if special then .segments [""] else .whole ""
  | c :: rest => if isSlash special c then pathOf special rest else pathOf special cs

/-- The path, the query and the fragment of the rest of a URL. -/
def cutTail (special : Bool) (cs : List Char) :
    List Char × Option String × Option String :=
  let (before, fragment) := match Text.cutFirst '#' cs with
    | some (before, after) => (before, some (encoded keptInFragment after))
    | none => (cs, none)
  match Text.cutFirst '?' before with
  | some (path, query) => (path, some (encoded (keptInQuery special) query), fragment)
  | none => (before, none, fragment)

/-- Name and password before a host. -/
def credentialsOf (cs : List Char) : String × String :=
  match Text.cutFirst ':' cs with
  | some (user, password) =>
    (encoded keptInCredentials user, encoded keptInCredentials password)
  | none => (encoded keptInCredentials cs, "")

/-- A port; no digits at all mean the usual one. -/
def port? (scheme : String) (cs : List Char) : Option (Option Nat) :=
  if cs.isEmpty then some none
  else if !cs.all Char.isDigit then none
  else
    match Text.digitsValue? 10 cs with
    | none => none
    | some port =>
      if port > 65535 then none
      else some (if usualPort? scheme == some port then none else some port)

/-- The part before the port and the part after its colon, which stands in no brackets. -/
def cutPort (inBrackets : Bool) : List Char → List Char × Option (List Char)
  | [] => ([], none)
  | c :: cs =>
    if c == ':' && !inBrackets then ([], some cs)
    else
      let (host, port) := cutPort (c == '[' || (inBrackets && c != ']')) cs
      (c :: host, port)

/-- The host with what stands beside it. -/
def authorityOf (scheme : String) (cs : List Char) : Option Authority := do
  let (credentials, rest) := match Text.cutLast '@' cs with
    | some (before, after) => (before, after)
    | none => ([], cs)
  let told := (Text.cutLast '@' cs).isSome
  let (hostText, portText) := cutPort false rest
  if hostText.isEmpty && (isSpecial scheme || told || portText.isSome) then none
  else
    let host ← if isSpecial scheme then host? hostText else opaqueHost? hostText
    let port ← (portText.map (port? scheme)).getD (some none)
    let (user, password) := credentialsOf credentials
    some ⟨user, password, host, port⟩

/-- The URL whose host starts the characters. -/
def readBehindSlashes (scheme : String) (cs : List Char) : Option Url := do
  let special := isSpecial scheme
  let (before, query, fragment) := cutTail special cs
  let inHost := fun c => !isSlash special c
  let authority ← authorityOf scheme (before.takeWhile inHost)
  some ⟨scheme, some authority, pathBehindHost special (before.dropWhile inHost), query,
    fragment⟩

/-- Whether a segment names a drive. -/
def isDrive (cs : List Char) : Bool :=
  match cs with
  | [c, d] => c.isAlpha && (d == ':' || d == '|')
  | _ => false

/-- Segments without empty ones at the start; one is always left. -/
def withoutEmptyStart (segments : List String) : List String :=
  match segments.dropWhile (· == "") with
  | [] => [""]
  | kept => kept

/-- The path of a file: without slashes at its start, and with a colon in the name of a drive,
which stays above all that follows. -/
def filePath (cs : List Char) : Path :=
  let all := segmentsOf true (cs.dropWhile (isSlash true))
  match all with
  | drive :: rest@(_ :: _) =>
    if isDrive drive then
      .segments ((String.ofList (drive.take 1) ++ ":") ::
        normalSegments (rest.map (encoded keptInPath)))
    else .segments (withoutEmptyStart (normalSegments (all.map (encoded keptInPath))))
  | _ => .segments (withoutEmptyStart (normalSegments (all.map (encoded keptInPath))))

/-- The URL of a file. -/
def readFile? (cs : List Char) : Option Url := do
  let (before, query, fragment) := cutTail true cs
  match before with
  | a :: b :: rest =>
    if isSlash true a && isSlash true b then
      let name := rest.takeWhile fun c => !isSlash true c
      if isDrive name then
        some ⟨"file", some { host := "" }, filePath rest, query, fragment⟩
      else
        let host ← if name.isEmpty then some "" else host? name
        let host := if host == "localhost" then "" else host
        some ⟨"file", some { host := host }, filePath (rest.drop name.length), query, fragment⟩
    else some ⟨"file", some { host := "" }, filePath before, query, fragment⟩
  | _ => some ⟨"file", some { host := "" }, filePath before, query, fragment⟩

/-- The URL of a scheme without hosts that are names. -/
def readOther (scheme : String) (cs : List Char) : Option Url :=
  match cs with
  | '/' :: '/' :: rest => readBehindSlashes scheme rest
  | '/' :: rest =>
    let (before, query, fragment) := cutTail false rest
    some ⟨scheme, none, pathOf false before, query, fragment⟩
  | _ =>
    let (before, query, fragment) := cutTail false cs
    some ⟨scheme, none, .whole (encoded keptInWhole before), query, fragment⟩

/-- Reads a URL. -/
def read (text : String) : Option Url := do
  let (scheme, rest) ← cutScheme (significant text)
  if scheme == "file" then readFile? rest
  else if isSpecial scheme then readBehindSlashes scheme (rest.dropWhile (isSlash true))
  else readOther scheme rest

end ResourceCli.Url
