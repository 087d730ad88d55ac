import ResourceCli.Text.Hex
import ResourceCli.Text.Utf8

/-!
# Percent-encoding

A character that may not stand at some place of a URL is written as its UTF-8 bytes, each as a
percent sign and two hexadecimal digits.  Which characters may stand there is given as a predicate
on ASCII characters; all others are always encoded.
-/

namespace ResourceCli.Url

/-- A byte, percent-encoded. -/
def percentByte (b : UInt8) : List Char :=
  ['%', Text.upperHexDigit (b.toNat / 16), Text.upperHexDigit (b.toNat % 16)]

/-- A character, percent-encoded. -/
def percentChar (c : Char) : List Char := (String.utf8EncodeChar c).flatMap percentByte

/-- The characters with all percent-encoded that may not stand as they are. -/
def percentEncode (keeps : Char → Bool) (cs : List Char) : List Char :=
  cs.flatMap fun c => if c.toNat < 0x80 && keeps c then [c] else percentChar c

/-- The bytes that percent-encoded characters stand for; a percent sign without two digits stands
for itself. -/
def percentDecode : List Char → Text.Bytes
  | [] => []
  | '%' :: a :: b :: cs =>
    match Text.hexValue? a, Text.hexValue? b with
    | some x, some y => UInt8.ofNat (16 * x + y) :: percentDecode cs
    | _, _ => 0x25 :: percentDecode (a :: b :: cs)
  | c :: cs => String.utf8EncodeChar c ++ percentDecode cs

/-- Whether a character needs no encoding anywhere in a URL. -/
def isUnreserved (c : Char) : Bool :=
  c.isAlphanum || c == '-' || c == '.' || c == '_' || c == '~'

/-- A value of a query, percent-encoded. -/
def encodeValue (s : String) : String :=
  String.ofList (percentEncode isUnreserved s.toList)

end ResourceCli.Url
