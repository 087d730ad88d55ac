import ResourceCli.Text.Hex
import ResourceCli.Text.HiddenTable

/-!
# Texts quoted for a reader

Diagnostics show a text in double quotes, with the characters that a reader could not tell apart
written by name or by number: `"a\tb"`, `"\u{200b}"`.
-/

namespace ResourceCli.Text

/-- Whether a code point is written by number in a quoted text. -/
def isHidden (n : Nat) : Bool :=
  hiddenRanges.any fun (low, high) => low ≤ n && n ≤ high

/-- One character as a quoted text shows it. -/
def quotedChar (c : Char) : List Char :=
  if c == '"' then ['\\', '"']
  else if c == '\\' then ['\\', '\\']
  else if c == '\n' then ['\\', 'n']
  else if c == '\r' then ['\\', 'r']
  else if c == '\t' then ['\\', 't']
  else if c.toNat == 0 then ['\\', '0']
  else if 0x20 ≤ c.toNat && c.toNat < 0x7F then [c]
  else if isHidden c.toNat then ['\\', 'u', '\x7b'] ++ hexDigits c.toNat ++ ['\x7d']
  else [c]

/-- A text in quotes. -/
def quoted (s : String) : String :=
  String.ofList ('"' :: (s.toList.flatMap quotedChar ++ ['"']))

end ResourceCli.Text
