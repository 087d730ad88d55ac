/-!
# Texts as bytes

Files, bodies and header values are bytes; texts are characters.  A text is written as UTF-8, and
bytes are read back in one of two ways: strictly, where one bad byte refuses the whole, and
leniently, where each maximal piece that starts no character becomes the replacement character.
Both ways cut the bytes into the same pieces, so they agree on whatever the strict one accepts.
-/

namespace ResourceCli.Text

/-- A sequence of bytes. -/
abbrev Bytes := List UInt8

/-- The bytes of a text. -/
def utf8Encode (s : String) : Bytes := s.toList.flatMap String.utf8EncodeChar

/-- The number of bytes of a list of characters. -/
def utf8Length (cs : List Char) : Nat := cs.foldl (fun n c => n + c.utf8Size) 0

/-- Whether a byte continues a character. -/
def continues (b : UInt8) : Bool := 0x80 ≤ b && b ≤ 0xBF

/-- The six payload bits of a continuation byte. -/
def payload (b : UInt8) : Nat := b.toNat % 64

/-- Whether `b` may follow the lead byte `lead` of a character of three bytes. -/
def secondOfThree (lead b : UInt8) : Bool :=
  if lead == 0xE0 then 0xA0 ≤ b && b ≤ 0xBF
  else if lead == 0xED then 0x80 ≤ b && b ≤ 0x9F
  else continues b

/-- Whether `b` may follow the lead byte `lead` of a character of four bytes. -/
def secondOfFour (lead b : UInt8) : Bool :=
  if lead == 0xF0 then 0x90 ≤ b && b ≤ 0xBF
  else if lead == 0xF4 then 0x80 ≤ b && b ≤ 0x8F
  else continues b

/-- The piece that starts with `lead`: its character, or none when the piece is no character, and
how many of the following bytes belong to it. -/
def piece (lead : UInt8) (rest : Bytes) : Option Char × Nat :=
  if lead < 0x80 then (some (Char.ofNat lead.toNat), 0)
  else if 0xC2 ≤ lead && lead ≤ 0xDF then
    match rest with
    | b :: _ =>
      if continues b then (some (Char.ofNat ((lead.toNat - 0xC0) * 64 + payload b)), 1)
      else (none, 0)
    | [] => (none, 0)
  else if 0xE0 ≤ lead && lead ≤ 0xEF then
    match rest with
    | b :: c :: _ =>
      if !secondOfThree lead b then (none, 0)
      else if !continues c then (none, 1)
      else (some (Char.ofNat ((lead.toNat - 0xE0) * 4096 + payload b * 64 + payload c)), 2)
    | [b] => (none, if secondOfThree lead b then 1 else 0)
    | [] => (none, 0)
  else if 0xF0 ≤ lead && lead ≤ 0xF4 then
    match rest with
    | b :: c :: d :: _ =>
      if !secondOfFour lead b then (none, 0)
      else if !continues c then (none, 1)
      else if !continues d then (none, 2)
      else
        (some (Char.ofNat ((lead.toNat - 0xF0) * 262144 + payload b * 4096 + payload c * 64
          + payload d)), 3)
    | [b, c] =>
      (none, if secondOfFour lead b then (if continues c then 2 else 1) else 0)
    | [b] => (none, if secondOfFour lead b then 1 else 0)
    | [] => (none, 0)
  else (none, 0)

/-- The pieces of a sequence of bytes, in order. -/
def pieces : Bytes → List (Option Char)
  | [] => []
  | b :: rest => (piece b rest).1 :: pieces (rest.drop (piece b rest).2)
  termination_by bytes => bytes.length
  decreasing_by simp only [List.length_drop, List.length_cons]; omega

/-- The text of some bytes, if all of them are text. -/
def utf8Decode? (bytes : Bytes) : Option String :=
  (pieces bytes).mapM id |>.map String.ofList

/-- Where the first piece that is no character starts, and how many bytes it has if that can be
told: a piece at the very end may only be cut off. -/
def badPiece? (place : Nat) : Bytes → Option (Nat × Option Nat)
  | [] => none
  | b :: rest =>
    let (c, more) := piece b rest
    match c with
    | some _ => badPiece? (place + more + 1) (rest.drop more)
    | none =>
      let cutOff := rest.length ≤ more && !(b < 0xC2 || 0xF4 < b)
      some (place, if cutOff then none else some (more + 1))
  termination_by bytes => bytes.length
  decreasing_by simp only [List.length_drop, List.length_cons]; omega

/-- Why some bytes are no text. -/
def decodeFault (bytes : Bytes) : String :=
  match badPiece? 0 bytes with
  | none => ""
  | some (place, some length) =>
    s!"invalid utf-8 sequence of {length} bytes from index {place}"
  | some (place, none) => s!"incomplete utf-8 byte sequence from index {place}"

/-- The text of some bytes, with a replacement character for every piece that is none. -/
def utf8Lossy (bytes : Bytes) : String :=
  String.ofList ((pieces bytes).map (·.getD '\uFFFD'))

end ResourceCli.Text
