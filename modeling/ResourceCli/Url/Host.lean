import ResourceCli.Text.Case
import ResourceCli.Url.Address
import ResourceCli.Url.Punycode

/-!
# Hosts

The host of a URL is a name or an address.  A name is written with small letters and ASCII alone;
percent-encoded characters in it are decoded, and characters that have a meaning elsewhere in a
URL may not stand in it.
-/

namespace ResourceCli.Url

/-- The characters that may not stand in a host of any kind. -/
def forbiddenInHost (c : Char) : Bool :=
  c == '\x00' || c == '\t' || c == '\n' || c == '\r' ||
    " #/:<>?@[\\]^|".toList.contains c

/-- The characters that may not stand in the name of a host. -/
def forbiddenInName (c : Char) : Bool :=
  forbiddenInHost c || c.toNat < 0x20 || c == '%' || c.toNat == 0x7F

/-- Whether a character says nothing in a name. -/
def isIgnored (c : Char) : Bool :=
  [0xAD, 0x200B, 0x2060, 0xFEFF].contains c.toNat || (0xFE00 ≤ c.toNat && c.toNat ≤ 0xFE0F)

/-- A character of a name in its basic form: a dot for the full stops of other scripts, ASCII for
the wide forms, and small letters. -/
def basicForm (c : Char) : List Char :=
  if c.toNat == 0x3002 || c.toNat == 0xFF0E || c.toNat == 0xFF61 then ['.']
  else if isIgnored c then []
  else if 0xFF01 ≤ c.toNat && c.toNat ≤ 0xFF5E then
    Text.lowerChar (Char.ofNat (c.toNat - 0xFEE0))
  else Text.lowerChar c

/-- Whether a character is a blank of another script or width, which stands for a space. -/
def isWideBlank (c : Char) : Bool :=
  [0xA0, 0x202F, 0x205F, 0x3000].contains c.toNat || (0x2000 ≤ c.toNat && c.toNat ≤ 0x200A)

/-- Whether a character beyond ASCII may not stand in a name: controls, joiners and marks of
direction, separators, and characters for private use. -/
def isBarred (c : Char) : Bool :=
  let n := c.toNat
  (0x80 ≤ n && n < 0xA0) || isWideBlank c || (0x200C ≤ n && n ≤ 0x200F) ||
    (0x2028 ≤ n && n ≤ 0x202E) || (0x2061 ≤ n && n ≤ 0x206F) || (0xE000 ≤ n && n ≤ 0xF8FF) ||
    (0xFFF0 ≤ n && n ≤ 0xFFFF) || 0xE0000 ≤ n

/-- Whether a character is beyond ASCII. -/
def isWide (c : Char) : Bool := 128 ≤ c.toNat

/-- A label of a name, written with ASCII alone.  One that starts with the mark of that form has to
be the form of a name in basic form. -/
def asciiLabel? (label : List Char) : Option (List Char) :=
  match Text.stripStart? ['x', 'n', '-', '-'] label with
  | some coded =>
    match Punycode.decode? coded with
    | some name =>
      if name.any isWide && !name.any isBarred && name.flatMap basicForm == name &&
        Punycode.encode name == coded
      then some label else none
    | none => none
  | none =>
    if label.any isBarred then none
    else if label.any isWide then some ("xn--".toList ++ Punycode.encode label)
    else some label

/-- A name, written with small letters and ASCII alone. -/
def asciiName? (name : List Char) : Option (List Char) := do
  let labels ← (Text.fields '.' (name.flatMap basicForm)).mapM asciiLabel?
  let all := (Text.join "." (labels.map String.ofList)).toList
  if all.any forbiddenInName then none else some all

/-- The host in square brackets. -/
def bracketed? (cs : List Char) : Option String :=
  match cs.reverse with
  | ']' :: inside => (ipv6? inside.reverse).map fun groups => "[" ++ ipv6Text groups ++ "]"
  | _ => none

/-- The host of a URL whose scheme has hosts with names. -/
def host? (cs : List Char) : Option String :=
  match cs with
  | '[' :: rest => bracketed? rest
  | _ => do
    let name ← asciiName? (← Text.utf8Decode? (percentDecode cs)).toList
    if name.isEmpty then none
    else if endsInNumber name then ipv4Text <$> ipv4? name
    else some (String.ofList name)

/-- Whether a character needs no encoding in a host that is kept as it is. -/
def keptInOpaqueHost (c : Char) : Bool := 0x20 ≤ c.toNat && c.toNat < 0x7F

/-- The host of a URL of another scheme; it is kept as it is. -/
def opaqueHost? (cs : List Char) : Option String :=
  match cs with
  | '[' :: rest => bracketed? rest
  | _ =>
    if cs.any forbiddenInHost then none
    else some (String.ofList (percentEncode keptInOpaqueHost cs))

end ResourceCli.Url
