import ResourceCli.Text.Split

/-!
# Paths of files

A path is a text whose names stand between slashes.  Empty names and, but at the start, the name
`.` say nothing and are passed over.  Nothing here looks at a disk: `..` is a name like others.
-/

namespace ResourceCli.Path

/-- Whether a path starts at the root. -/
def isAbsolute (path : String) : Bool := path.toList.head? == some '/'

/-- The names of a path, with `.` only at the start of a relative path. -/
def names (path : String) : List String :=
  let all := Text.splitAt '/' path
  let told := (all.drop 1).filter fun name => name != "" && name != "."
  match all with
  | first :: _ => if first == "" then told else first :: told
  | [] => told

/-- The last name of a path, if it names something. -/
def fileName? (path : String) : Option String :=
  (names path).getLast?.filter fun name => name != "." && name != ".."

/-- A path below a directory; an absolute path stays as it is. -/
def below (directory path : String) : String :=
  if isAbsolute path || directory == "" then path
  else if directory.toList.getLast? == some '/' then directory ++ path
  else directory ++ "/" ++ path

/-- A path with the home directory in place of a `~` that is its first name. -/
def expandHome (home : Option String) (path : String) : String :=
  match home, path.toList with
  | some home, ['~'] => home
  | some home, '~' :: '/' :: rest => home ++ "/" ++ String.ofList rest
  | _, _ => path

/-- The characters of a path without what is passed over at its end. -/
def trimmed : List Char → List Char
  | '.' :: '/' :: rest => trimmed ('/' :: rest)
  | ['/'] => ['/']
  | '/' :: rest => trimmed rest
  | path => path
termination_by path => path.length

/-- The directory that a path lies in; the root and the empty path lie in none. -/
def directory? (path : String) : Option String :=
  match names path with
  | [] => none
  | _ :: _ =>
    let withoutName := (trimmed path.toList.reverse).dropWhile (· != '/')
    some (String.ofList (trimmed withoutName).reverse)

end ResourceCli.Path
