import ResourceCli.Url.Read
import Mathlib.Algebra.GroupWithZero.Nat
import Mathlib.Data.List.Basic

/-!
# Percent-encoding undone

A segment is written into the path of a URL by encoding the characters that may not stand there, and
it is read off the path by decoding.  A percent sign is one of the characters that may stand in a
path.  So what is decoded is the segment itself as long as no percent sign in it has two hexadecimal
digits behind it, and something shorter otherwise.

* `hasEscape`: whether a percent sign has two digits behind it.
* `percentDecode_encode`, `length_percentDecode_encode`: what is read back, and how long it is.

In the value of a query percent signs are encoded too, so that every value is read back
(`percentDecode_encodeValue`).
-/

namespace ResourceCli.Url

variable {c : Char} {cs : List Char}

/-! ## Bytes -/

/-- The number of bytes of characters. -/
def size (cs : List Char) : Nat := (cs.flatMap String.utf8EncodeChar).length

@[simp] theorem size_nil : size [] = 0 := rfl

@[simp] theorem size_cons (c : Char) (cs : List Char) : size (c :: cs) = c.utf8Size + size cs := by
  rw [size, List.flatMap_cons, List.length_append, String.length_utf8EncodeChar]
  rfl

theorem size_flatMap {α : Type} (f : α → List Char) (l : List α) :
    size (l.flatMap f) = (l.map fun a => size (f a)).sum := by
  rw [size, List.flatMap_assoc, List.length_flatMap]
  rfl

/-- What is left of characters when some are passed over has fewer bytes, unless none are. -/
theorem size_of_sublist {ds : List Char} (h : ds.Sublist cs) :
    size ds ≤ size cs ∧ (size ds = size cs → ds = cs) := by
  induction h with
  | slnil => exact ⟨Nat.le_refl _, fun _ => rfl⟩
  | cons c _ ih =>
    have hpos := Char.utf8Size_pos c
    rw [size_cons]
    exact ⟨by omega, fun he => by omega⟩
  | cons_cons c _ ih =>
    rw [size_cons, size_cons]
    exact ⟨by omega, fun he => by rw [ih.2 (by omega)]⟩

/-- Characters can be told from their bytes. -/
theorem bytes_inj {ds : List Char}
    (h : cs.flatMap String.utf8EncodeChar = ds.flatMap String.utf8EncodeChar) : cs = ds := by
  have hbytes : cs.utf8Encode = ds.utf8Encode := by rw [List.utf8Encode, List.utf8Encode, h]
  have hdecoded := congrArg ByteArray.utf8Decode? hbytes
  rw [List.utf8Decode?_utf8Encode, List.utf8Decode?_utf8Encode, Option.some.injEq] at hdecoded
  exact List.toArray_inj hdecoded

/-! ## Escapes -/

/-- Whether characters start with two hexadecimal digits. -/
def startsEscape : List Char → Bool
  | a :: b :: _ => (Text.hexValue? a).isSome && (Text.hexValue? b).isSome
  | _ => false

/-- Whether a percent sign has two hexadecimal digits behind it. -/
def hasEscape : List Char → Bool
  | [] => false
  | c :: cs => (c == '%' && startsEscape cs) || hasEscape cs

theorem percentDecode_of_ne (hc : c ≠ '%') (cs : List Char) :
    percentDecode (c :: cs) = String.utf8EncodeChar c ++ percentDecode cs := by
  rw [percentDecode]
  rintro a b ds rfl
  exact absurd rfl hc

theorem percentDecode_percent (h : startsEscape cs = false) :
    percentDecode ('%' :: cs) = String.utf8EncodeChar '%' ++ percentDecode cs := by
  match cs, h with
  | [], _ => rfl
  | [a], _ => rfl
  | a :: b :: ds, h =>
    rw [startsEscape] at h
    rw [percentDecode]
    split
    · rename_i x y ha hb
      rw [ha, hb] at h
      cases h
    · rfl

theorem percentDecode_escape {a b : Char} {x y : Nat} (ha : Text.hexValue? a = some x)
    (hb : Text.hexValue? b = some y) (cs : List Char) :
    percentDecode ('%' :: a :: b :: cs) = UInt8.ofNat (16 * x + y) :: percentDecode cs := by
  rw [percentDecode, ha, hb]

/-- An encoded byte is read back. -/
theorem percentDecode_percentByte (b : UInt8) (cs : List Char) :
    percentDecode (percentByte b ++ cs) = b :: percentDecode cs := by
  have hb : b.toNat < 256 := b.toNat_lt
  have hhigh := Text.hexValue?_upperHexDigit (n := b.toNat / 16) (by omega)
  have hlow := Text.hexValue?_upperHexDigit (n := b.toNat % 16) (by omega)
  show percentDecode ('%' :: _ :: _ :: cs) = _
  rw [percentDecode_escape hhigh hlow, show 16 * (b.toNat / 16) + b.toNat % 16 = b.toNat by omega,
    UInt8.ofNat_toNat]

/-- An encoded character is read back. -/
theorem percentDecode_percentChar (c : Char) (cs : List Char) :
    percentDecode (percentChar c ++ cs) = String.utf8EncodeChar c ++ percentDecode cs := by
  unfold percentChar
  induction String.utf8EncodeChar c with
  | nil => rfl
  | cons b bytes ih =>
    rw [List.flatMap_cons, List.append_assoc, percentDecode_percentByte, ih, List.cons_append]

/-! ## Segments of a path -/

/-- Whether a character is written into a path as it is. -/
def isKept (c : Char) : Bool := c.toNat < 0x80 && keptInPath c

theorem percentEncode_cons (c : Char) (cs : List Char) :
    percentEncode keptInPath (c :: cs) =
      (if isKept c then [c] else percentChar c) ++ percentEncode keptInPath cs :=
  List.flatMap_cons

/-- What holds of the characters of ASCII one by one, holds of all of them. -/
theorem of_ascii {P : Char → Prop} (h : ∀ n < 128, P (Char.ofNat n)) (hc : c.toNat < 128) : P c :=
  Char.ofNat_toNat c ▸ h c.toNat hc

theorem isKept_of_hexValue (h : (Text.hexValue? c).isSome = true) : isKept c = true := by
  have hascii : c.toNat < 128 := by
    by_contra hwide
    have hnot : ∀ d : Char, d.toNat < 128 → decide (c ≤ d) = false := by
      intro d hd
      rw [decide_eq_false_iff_not, Char.le_def, UInt32.le_iff_toNat_le]
      show ¬ c.toNat ≤ d.toNat
      omega
    rw [Text.hexValue?, hnot '9' (by decide), hnot 'f' (by decide), hnot 'F' (by decide)] at h
    simp at h
  exact of_ascii (P := fun c => (Text.hexValue? c).isSome = true → isKept c = true)
    (by decide) hascii h

/-- What a character is written as starts with a hexadecimal digit only if it is one. -/
theorem startsEscape_percentEncode (cs : List Char) :
    startsEscape (percentEncode keptInPath cs) = startsEscape cs := by
  -- A character that is not kept starts with a percent sign, which is no digit.
  have hcoded : ∀ c, isKept c = false → (Text.hexValue? c).isSome = false ∧
      ∃ rest, percentChar c = '%' :: rest := by
    intro c hc
    refine ⟨Bool.eq_false_iff.2 fun h => ?_, ?_⟩
    · rw [isKept_of_hexValue h] at hc
      cases hc
    · obtain ⟨b, bytes, hb⟩ := List.exists_cons_of_ne_nil (String.utf8EncodeChar_ne_nil (c := c))
      exact ⟨_, by rw [percentChar, hb, List.flatMap_cons]; rfl⟩
  have hpercent : ∀ rest, startsEscape ('%' :: rest) = false := fun rest => by
    cases rest <;> rfl
  match cs with
  | [] => rfl
  | [a] =>
    rw [percentEncode_cons]
    split
    · rfl
    · rename_i ha
      obtain ⟨-, rest, hrest⟩ := hcoded a (Bool.eq_false_iff.2 ha)
      rw [hrest, List.cons_append, hpercent]
      rfl
  | a :: b :: ds =>
    rw [percentEncode_cons, percentEncode_cons, startsEscape]
    split
    · rename_i ha
      split
      · rfl
      · rename_i hb
        obtain ⟨hnone, rest, hrest⟩ := hcoded b (Bool.eq_false_iff.2 hb)
        rw [hrest, hnone]
        rfl
    · rename_i ha
      obtain ⟨hnone, rest, hrest⟩ := hcoded a (Bool.eq_false_iff.2 ha)
      rw [hrest, hnone, List.cons_append, hpercent, Bool.false_and]

/-- A character that starts no escape is read back as it was. -/
theorem percentDecode_encode_cons (h : (c == '%' && startsEscape cs) = false) :
    percentDecode (percentEncode keptInPath (c :: cs)) =
      String.utf8EncodeChar c ++ percentDecode (percentEncode keptInPath cs) := by
  rw [percentEncode_cons]
  split
  · rw [List.singleton_append]
    by_cases hc : c = '%'
    · subst hc
      rw [percentDecode_percent]
      rw [startsEscape_percentEncode]
      exact h
    · exact percentDecode_of_ne hc _
  · exact percentDecode_percentChar c _

/-- **Without an escape, characters are read back as they were.** -/
theorem percentDecode_encode (h : hasEscape cs = false) :
    percentDecode (percentEncode keptInPath cs) = cs.flatMap String.utf8EncodeChar := by
  induction cs with
  | nil => rfl
  | cons c cs ih =>
    rw [hasEscape, Bool.or_eq_false_iff] at h
    rw [percentDecode_encode_cons h.1, ih h.2, List.flatMap_cons]

/-- An escape is read back as one byte. -/
theorem percentDecode_encode_escape {a b : Char} (ha : (Text.hexValue? a).isSome = true)
    (hb : (Text.hexValue? b).isSome = true) (cs : List Char) :
    ∃ byte, percentDecode (percentEncode keptInPath ('%' :: a :: b :: cs)) =
      byte :: percentDecode (percentEncode keptInPath cs) := by
  obtain ⟨x, hx⟩ := Option.isSome_iff_exists.1 ha
  obtain ⟨y, hy⟩ := Option.isSome_iff_exists.1 hb
  rw [percentEncode_cons, percentEncode_cons, percentEncode_cons, isKept_of_hexValue ha,
    isKept_of_hexValue hb, if_pos rfl, if_pos rfl, if_pos (by decide)]
  exact ⟨_, percentDecode_escape hx hy _⟩

/-- **What is read back is never longer than it was**, and shorter if there is an escape. -/
theorem length_percentDecode_encode (cs : List Char) :
    (percentDecode (percentEncode keptInPath cs)).length ≤ size cs ∧
      ((percentDecode (percentEncode keptInPath cs)).length = size cs → hasEscape cs = false) := by
  -- An escape takes three characters at once, so the induction is on the length.
  induction hn : cs.length using Nat.strongRecOn generalizing cs with
  | _ n ih =>
    subst hn
    match cs with
    | [] => exact ⟨Nat.le_refl _, fun _ => rfl⟩
    | c :: cs =>
      cases h : c == '%' && startsEscape cs with
      | false =>
        obtain ⟨hle, heq⟩ := ih cs.length (Nat.lt_succ_self _) cs rfl
        rw [percentDecode_encode_cons h, List.length_append, String.length_utf8EncodeChar,
          size_cons, hasEscape, h, Bool.false_or]
        exact ⟨by omega, fun he => heq (by omega)⟩
      | true =>
        obtain ⟨hc, hstarts⟩ := Bool.and_eq_true_iff.1 h
        obtain rfl := beq_iff_eq.1 hc
        match cs, hstarts with
        | a :: b :: ds, hstarts =>
          obtain ⟨ha, hb⟩ := Bool.and_eq_true_iff.1 hstarts
          obtain ⟨byte, hbyte⟩ := percentDecode_encode_escape ha hb ds
          obtain ⟨hle, -⟩ := ih ds.length (by simp only [List.length_cons]; omega) ds rfl
          have hposa := Char.utf8Size_pos a
          have hposb := Char.utf8Size_pos b
          have hposc := Char.utf8Size_pos '%'
          rw [hbyte, List.length_cons, size_cons, size_cons, size_cons]
          exact ⟨by omega, fun he => by omega⟩

/-! ## Values of a query -/

theorem isUnreserved_upperHexDigit {n : Nat} (h : n < 16) :
    isUnreserved (Text.upperHexDigit n) = true := by
  revert n; decide

/-- An encoded character consists of percent signs and digits. -/
theorem isUnreserved_of_mem_percentChar {d : Char} (h : d ∈ percentChar c) :
    isUnreserved d = true ∨ d = '%' := by
  obtain ⟨b, -, hd⟩ := List.mem_flatMap.1 h
  have hb : b.toNat < 256 := b.toNat_lt
  rcases List.mem_cons.1 hd with rfl | hd
  · exact .inr rfl
  · rcases List.mem_cons.1 hd with rfl | hd
    · exact .inl (isUnreserved_upperHexDigit (by omega))
    · rw [List.mem_singleton.1 hd]
      exact .inl (isUnreserved_upperHexDigit (by omega))

/-- An encoded value consists of unreserved characters and percent signs. -/
theorem isUnreserved_of_mem_encodeValue {s : String} (h : c ∈ (encodeValue s).toList) :
    isUnreserved c = true ∨ c = '%' := by
  rw [encodeValue, String.toList_ofList] at h
  obtain ⟨d, -, hc⟩ := List.mem_flatMap.1 h
  split at hc
  · rename_i hkept
    rw [List.mem_singleton.1 hc]
    exact .inl (Bool.and_eq_true_iff.1 hkept).2
  · exact isUnreserved_of_mem_percentChar hc

/-- **An encoded value is read back.** -/
theorem percentDecode_encodeValue (s : String) :
    percentDecode (encodeValue s).toList = Text.utf8Encode s := by
  show _ = s.toList.flatMap String.utf8EncodeChar
  rw [encodeValue, String.toList_ofList, percentEncode]
  induction s.toList with
  | nil => rfl
  | cons c cs ih =>
    rw [List.flatMap_cons, List.flatMap_cons]
    split
    · rename_i hkept
      have hc : c ≠ '%' := by
        rintro rfl
        exact absurd hkept (by decide)
      rw [List.singleton_append, percentDecode_of_ne hc, ih]
    · rw [percentDecode_percentChar, ih]

end ResourceCli.Url
