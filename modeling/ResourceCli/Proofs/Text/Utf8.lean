import Mathlib.Data.List.Basic
import ResourceCli.Text.Utf8

/-!
# Bytes of a text read back

What is written as bytes is read back as the text that it was.  A character is written as one to
four bytes, and the first of them tells the reader how many (`piece_utf8EncodeChar`); so the pieces
of the bytes of a text are its characters (`pieces_utf8Encode`), and none of them is bad
(`utf8Decode?_utf8Encode`).
-/

namespace ResourceCli.Text

/-! ## The bytes of one character -/

/-- The number of a byte that is given by a small number. -/
theorem toNat_byte {n m : Nat} (h : n = m) (hm : m < 256) : (UInt8.ofNat n).toNat = m := by
  rw [h, UInt8.toNat_ofNat_of_lt' hm]

/-- Six bits behind the mark of a continuation byte. -/
theorem toNat_following (n : Nat) : (UInt8.ofNat (n % 64 + 128)).toNat = n % 64 + 128 :=
  toNat_byte rfl (by omega)

theorem continues_iff (b : UInt8) : continues b = true ↔ 128 ≤ b.toNat ∧ b.toNat ≤ 191 := by
  simp [continues, UInt8.le_iff_toNat_le]

theorem continues_following (n : Nat) : continues (UInt8.ofNat (n % 64 + 128)) = true := by
  rw [continues_iff, toNat_following]
  omega

theorem payload_following (n : Nat) : payload (UInt8.ofNat (n % 64 + 128)) = n % 64 := by
  rw [payload, toNat_following]
  omega

/-- A character of one byte. -/
theorem piece_one {v : Nat} (h : v ≤ 127) (rest : Bytes) :
    piece (UInt8.ofNat v) rest = (some (Char.ofNat v), 0) := by
  have hv : (UInt8.ofNat v).toNat = v := toNat_byte rfl (by omega)
  have hl : UInt8.ofNat v < 0x80 := by
    rw [UInt8.lt_iff_toNat_lt, hv]
    exact Nat.lt_succ_of_le h
  simp only [piece, hl, if_true, hv]

/-- A character of two bytes. -/
theorem piece_two {v : Nat} (h : 128 ≤ v) (h' : v ≤ 2047) (rest : Bytes) :
    piece (UInt8.ofNat (v / 64 % 32 + 192)) (UInt8.ofNat (v % 64 + 128) :: rest) =
      (some (Char.ofNat v), 1) := by
  have hl : (UInt8.ofNat (v / 64 % 32 + 192)).toNat = v / 64 + 192 :=
    toNat_byte (by omega) (by omega)
  have hv : v / 64 * 64 + v % 64 = v := Nat.div_add_mod' v 64
  generalize UInt8.ofNat (v / 64 % 32 + 192) = lead at hl
  have h1 : ¬ lead < 0x80 := by simp [UInt8.lt_iff_toNat_lt, hl]
  have h2 : (0xC2 ≤ lead && lead ≤ 0xDF) = true := by simp [UInt8.le_iff_toNat_le, hl]; omega
  have hsub : v / 64 + 192 - 0xC0 = v / 64 := by omega
  simp only [piece, h1, h2, hl, continues_following, payload_following, hsub, hv, if_true, if_false]

/-- A character of three bytes, which is no surrogate. -/
theorem piece_three {v : Nat} (h : 2048 ≤ v) (h' : v ≤ 65535) (hs : ¬ (55296 ≤ v ∧ v ≤ 57343))
    (rest : Bytes) :
    piece (UInt8.ofNat (v / 4096 % 16 + 224))
        (UInt8.ofNat (v / 64 % 64 + 128) :: UInt8.ofNat (v % 64 + 128) :: rest) =
      (some (Char.ofNat v), 2) := by
  have hl : (UInt8.ofNat (v / 4096 % 16 + 224)).toNat = v / 4096 + 224 :=
    toNat_byte (by omega) (by omega)
  have hv : v / 4096 * 4096 + v / 64 % 64 * 64 + v % 64 = v := by omega
  generalize UInt8.ofNat (v / 4096 % 16 + 224) = lead at hl
  have h1 : ¬ lead < 0x80 := by simp [UInt8.lt_iff_toNat_lt, hl]
  have h2 : (0xC2 ≤ lead && lead ≤ 0xDF) = false := by simp [UInt8.le_iff_toNat_le, hl]
  have h3 : (0xE0 ≤ lead && lead ≤ 0xEF) = true := by simp [UInt8.le_iff_toNat_le, hl]; omega
  have hb : secondOfThree lead (UInt8.ofNat (v / 64 % 64 + 128)) = true := by
    simp only [secondOfThree, beq_iff_eq, ← UInt8.toNat_inj, hl, continues_following]
    split_ifs <;> simp_all [UInt8.le_iff_toNat_le] <;> omega
  have hsub : v / 4096 + 224 - 0xE0 = v / 4096 := by omega
  simp only [piece, h1, h2, h3, hb, hl, continues_following, payload_following, hsub, hv, if_true,
    if_false, Bool.not_true, Bool.false_eq_true]

/-- A character of four bytes. -/
theorem piece_four {v : Nat} (h : 65536 ≤ v) (h' : v ≤ 1114111) (rest : Bytes) :
    piece (UInt8.ofNat (v / 262144 % 8 + 240))
        (UInt8.ofNat (v / 4096 % 64 + 128) :: UInt8.ofNat (v / 64 % 64 + 128) ::
          UInt8.ofNat (v % 64 + 128) :: rest) =
      (some (Char.ofNat v), 3) := by
  have hl : (UInt8.ofNat (v / 262144 % 8 + 240)).toNat = v / 262144 + 240 :=
    toNat_byte (by omega) (by omega)
  have hv : v / 262144 * 262144 + v / 4096 % 64 * 4096 + v / 64 % 64 * 64 + v % 64 = v := by omega
  generalize UInt8.ofNat (v / 262144 % 8 + 240) = lead at hl
  have h1 : ¬ lead < 0x80 := by simp [UInt8.lt_iff_toNat_lt, hl]
  have h2 : (0xC2 ≤ lead && lead ≤ 0xDF) = false := by simp [UInt8.le_iff_toNat_le, hl]
  have h3 : (0xE0 ≤ lead && lead ≤ 0xEF) = false := by simp [UInt8.le_iff_toNat_le, hl]
  have h4 : (0xF0 ≤ lead && lead ≤ 0xF4) = true := by simp [UInt8.le_iff_toNat_le, hl]; omega
  have hb : secondOfFour lead (UInt8.ofNat (v / 4096 % 64 + 128)) = true := by
    simp only [secondOfFour, beq_iff_eq, ← UInt8.toNat_inj, hl, continues_following]
    split_ifs <;> simp_all [UInt8.le_iff_toNat_le] <;> omega
  have hsub : v / 262144 + 240 - 0xF0 = v / 262144 := by omega
  simp only [piece, h1, h2, h3, h4, hb, hl, continues_following, payload_following, hsub, hv,
    if_true, if_false, Bool.not_true, Bool.false_eq_true]

/-- The bytes of a character are one piece, whatever follows them. -/
theorem piece_utf8EncodeChar (c : Char) (rest : Bytes) :
    ∃ lead more, String.utf8EncodeChar c = lead :: more ∧
      piece lead (more ++ rest) = (some c, more.length) := by
  have hc : Char.ofNat c.val.toNat = c := Char.ofNat_toNat c
  have hvalid : c.val.toNat < 55296 ∨ 57343 < c.val.toNat ∧ c.val.toNat < 1114112 := c.valid
  rw [String.utf8EncodeChar]
  generalize c.val.toNat = v at hc hvalid
  subst hc
  split_ifs with h1 h2 h3
  · exact ⟨_, [], rfl, piece_one h1 rest⟩
  · exact ⟨_, [_], rfl, piece_two (by omega) h2 rest⟩
  · exact ⟨_, [_, _], rfl, piece_three (by omega) h3 (by omega) rest⟩
  · exact ⟨_, [_, _, _], rfl, piece_four (by omega) (by omega) rest⟩

/-! ## The bytes of a text -/

/-- The pieces of the bytes of some characters are these characters. -/
theorem pieces_flatMap (cs : List Char) :
    pieces (cs.flatMap String.utf8EncodeChar) = cs.map some := by
  induction cs with
  | nil => simp [pieces]
  | cons c cs ih =>
    obtain ⟨lead, more, he, hp⟩ := piece_utf8EncodeChar c (cs.flatMap String.utf8EncodeChar)
    rw [List.flatMap_cons, he, List.cons_append, pieces, hp, List.drop_left, ih, List.map_cons]

/-- The pieces of the bytes of a text are its characters. -/
theorem pieces_utf8Encode (s : String) : pieces (utf8Encode s) = s.toList.map some :=
  pieces_flatMap s.toList

/-- What is written as bytes is read back as the text that it was. -/
theorem utf8Decode?_utf8Encode (s : String) : utf8Decode? (utf8Encode s) = some s := by
  have hm (cs : List Char) : (cs.map some).mapM id = some cs := by
    induction cs with
    | nil => rfl
    | cons c cs ih => simp [ih]
  rw [utf8Decode?, pieces_utf8Encode, hm, Option.map_some, String.ofList_toList]

/-- Texts are told apart by how they are written in bytes. -/
theorem utf8Encode_inj {s t : String} : utf8Encode s = utf8Encode t ↔ s = t := by
  refine ⟨fun h => Option.some.inj ?_, congrArg _⟩
  rw [← utf8Decode?_utf8Encode, h, utf8Decode?_utf8Encode]

end ResourceCli.Text
