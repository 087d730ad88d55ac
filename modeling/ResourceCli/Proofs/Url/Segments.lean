import ResourceCli.Proofs.Url.Percent
import Mathlib.Algebra.BigOperators.Group.List.Basic

/-!
# The segments of a path, and what becomes of them

Behind a host, characters are cut into segments at their slashes, each segment is encoded, and the
segments that name directories are carried out.  On the way segments can only lose: an escape is
read back as one byte, a segment `.` is left out, and a segment `..` takes the one before it along.
What is measured is the `weight` of segments, the number of bytes that they are decoded to and one
for each of them.

* `size_segmentsOf`, `weight_encoded`, `weight_normalFrom`: nothing gains weight, and what keeps its
  weight has no escapes and no segments that name directories.
* `normalFrom_append`, `normalFrom_of_named`: carrying out goes from the left to the right, and does
  nothing if no segment names a directory.
-/

namespace ResourceCli.Url

/-! ## Cutting at slashes -/

variable {c : Char} {cs : List Char}

theorem segmentsOf_ne_nil (cs : List Char) : segmentsOf true cs ≠ [] := by
  cases cs with
  | nil => exact List.cons_ne_nil _ _
  | cons c cs =>
    rw [segmentsOf]
    split
    · exact List.cons_ne_nil _ _
    · split <;> exact List.cons_ne_nil _ _

theorem segmentsOf_slash (hc : isSlash true c = true) (cs : List Char) :
    segmentsOf true (c :: cs) = [] :: segmentsOf true cs := by
  rw [segmentsOf, if_pos hc]

theorem segmentsOf_other (hc : isSlash true c = false) {first : List Char}
    {rest : List (List Char)} (h : segmentsOf true cs = first :: rest) :
    segmentsOf true (c :: cs) = (c :: first) :: rest := by
  rw [segmentsOf, if_neg (Bool.eq_false_iff.1 hc), h]

/-- Characters are cut at a slash, and so are those before and behind it. -/
theorem segmentsOf_append (hc : isSlash true c = true) (cs ds : List Char) :
    segmentsOf true (cs ++ c :: ds) = segmentsOf true cs ++ segmentsOf true ds := by
  induction cs with
  | nil => exact segmentsOf_slash hc ds
  | cons d cs ih =>
    cases hd : isSlash true d with
    | true =>
      rw [List.cons_append, segmentsOf_slash hd, segmentsOf_slash hd, ih, List.cons_append]
    | false =>
      obtain ⟨first, rest, hcs⟩ := List.exists_cons_of_ne_nil (segmentsOf_ne_nil cs)
      rw [hcs, List.cons_append] at ih
      rw [List.cons_append, segmentsOf_other hd ih, segmentsOf_other hd hcs, List.cons_append]

theorem segmentsOf_of_whole (h : ∀ c ∈ cs, isSlash true c = false) : segmentsOf true cs = [cs] := by
  induction cs with
  | nil => rfl
  | cons c cs ih =>
    exact segmentsOf_other (h c List.mem_cons_self)
      (ih fun d hd => h d (List.mem_cons_of_mem _ hd))

/-- Parts without slashes are what they are cut into when they are joined. -/
theorem segmentsOf_intercalate {parts : List (List Char)} (hne : parts ≠ [])
    (h : ∀ p ∈ parts, ∀ c ∈ p, isSlash true c = false) :
    segmentsOf true (['/'].intercalate parts) = parts := by
  induction parts with
  | nil => exact absurd rfl hne
  | cons p parts ih =>
    cases parts with
    | nil =>
      rw [List.intercalate_singleton, segmentsOf_of_whole (h p List.mem_cons_self)]
    | cons q parts =>
      rw [List.intercalate_cons_cons, List.append_assoc, List.singleton_append,
        segmentsOf_append rfl, segmentsOf_of_whole (h p List.mem_cons_self),
        ih (List.cons_ne_nil _ _) fun p hp => h p (List.mem_cons_of_mem _ hp),
        List.singleton_append]

/-- There is one segment more than there are slashes. -/
theorem length_segmentsOf (cs : List Char) :
    (segmentsOf true cs).length = cs.countP (isSlash true) + 1 := by
  induction cs with
  | nil => rfl
  | cons c cs ih =>
    cases hc : isSlash true c with
    | true => rw [segmentsOf_slash hc, List.length_cons, ih, List.countP_cons_of_pos hc]
    | false =>
      obtain ⟨first, rest, hcs⟩ := List.exists_cons_of_ne_nil (segmentsOf_ne_nil cs)
      rw [hcs] at ih
      rw [segmentsOf_other hc hcs, List.countP_cons_of_neg (Bool.eq_false_iff.1 hc), ← ih]
      rfl

/-- No byte gets lost between the segments but for the slashes. -/
theorem size_segmentsOf (cs : List Char) :
    ((segmentsOf true cs).map fun p => size p + 1).sum = size cs + 1 := by
  induction cs with
  | nil => rfl
  | cons c cs ih =>
    cases hc : isSlash true c with
    | true =>
      have hsize : c.utf8Size = 1 := by
        rcases Bool.or_eq_true_iff.1 hc with h | h
        · rw [beq_iff_eq.1 h]
          rfl
        · rw [beq_iff_eq.1 (Bool.and_eq_true_iff.1 h).2]
          rfl
      rw [segmentsOf_slash hc, List.map_cons, List.sum_cons, ih, size_nil, size_cons, hsize]
      omega
    | false =>
      obtain ⟨first, rest, hcs⟩ := List.exists_cons_of_ne_nil (segmentsOf_ne_nil cs)
      rw [hcs, List.map_cons, List.sum_cons] at ih
      rw [segmentsOf_other hc hcs, List.map_cons, List.sum_cons, size_cons, size_cons]
      omega

/-! ## Weights -/

/-- The number of bytes that segments are decoded to, and one for each of them. -/
def weight (segments : List String) : Nat :=
  (segments.map fun s => (percentDecode s.toList).length + 1).sum

@[simp] theorem weight_nil : weight [] = 0 := rfl

@[simp] theorem weight_cons (s : String) (segments : List String) :
    weight (s :: segments) = (percentDecode s.toList).length + 1 + weight segments :=
  List.sum_cons

@[simp] theorem weight_append (segments segments' : List String) :
    weight (segments ++ segments') = weight segments + weight segments' := by
  rw [weight, List.map_append, List.sum_append]
  rfl

@[simp] theorem weight_reverse (segments : List String) :
    weight segments.reverse = weight segments := by
  rw [weight, List.map_reverse, List.sum_reverse]
  rfl

theorem weight_drop_le (segments : List String) : weight (segments.drop 1) ≤ weight segments := by
  cases segments with
  | nil => exact Nat.le_refl _
  | cons s segments =>
    rw [List.drop_succ_cons, List.drop_zero, weight_cons]
    omega

/-- **Encoding gains no weight**, and keeps it only if there is no escape. -/
theorem weight_encoded (parts : List (List Char)) :
    weight (parts.map (encoded keptInPath)) ≤ (parts.map fun p => size p + 1).sum ∧
      (weight (parts.map (encoded keptInPath)) = (parts.map fun p => size p + 1).sum →
        ∀ p ∈ parts, hasEscape p = false) := by
  induction parts with
  | nil => exact ⟨Nat.le_refl _, fun _ _ hp => absurd hp List.not_mem_nil⟩
  | cons p parts ih =>
    obtain ⟨hle, heq⟩ := length_percentDecode_encode p
    have hp : (encoded keptInPath p).toList = percentEncode keptInPath p := String.toList_ofList
    rw [List.map_cons, weight_cons, List.map_cons, List.sum_cons, hp]
    refine ⟨by omega, fun he q hq => ?_⟩
    rcases List.mem_cons.1 hq with rfl | hq
    · exact heq (by omega)
    · exact ih.2 (by omega) q hq

/-! ## Carrying out -/

/-- Whether a segment names a directory: its own or the one above. -/
def isDots (segment : String) : Bool := isAbove segment || isHere segment

/-- The segments so far, the last one first, with one more behind them. -/
def carry (before : List String) (segment : String) : List String :=
  if isAbove segment then before.drop 1
  else if isHere segment then before
  else segment :: before

/-- A segment that names a directory is decoded to one dot or to two. -/
theorem percentDecode_of_isDots {segment : String} (h : isDots segment = true) :
    percentDecode segment.toList = ['.'].flatMap String.utf8EncodeChar ∨
      percentDecode segment.toList = ['.', '.'].flatMap String.utf8EncodeChar := by
  have hall : ∀ s ∈
      ["..", ".%2e", ".%2E", "%2e.", "%2E.", "%2e%2e", "%2e%2E", "%2E%2e", "%2E%2E"] ++
      [".", "%2e", "%2E"],
      percentDecode s.toList = ['.'].flatMap String.utf8EncodeChar ∨
        percentDecode s.toList = ['.', '.'].flatMap String.utf8EncodeChar := by decide
  refine hall segment (List.mem_append.2 ?_)
  exact (Bool.or_eq_true_iff.1 h).imp List.contains_iff_mem.1 List.contains_iff_mem.1

theorem two_le_of_isDots {segment : String} (h : isDots segment = true) :
    2 ≤ (percentDecode segment.toList).length + 1 := by
  rcases percentDecode_of_isDots h with h | h <;> rw [h] <;> decide

theorem normalFrom_cons (before : List String) (segment : String) {rest : List String}
    (h : rest ≠ []) :
    normalFrom before (segment :: rest) = normalFrom (carry before segment) rest := by
  obtain ⟨s, rest, rfl⟩ := List.exists_cons_of_ne_nil h
  rw [normalFrom, carry]
  · split
    · rfl
    · split <;> rfl
  · exact List.cons_ne_nil _ _

/-- Segments are carried out from the left to the right. -/
theorem normalFrom_append (before segments : List String) {rest : List String} (h : rest ≠ []) :
    normalFrom before (segments ++ rest) = normalFrom (segments.foldl carry before) rest := by
  induction segments generalizing before with
  | nil => rfl
  | cons s segments ih =>
    rw [List.cons_append, normalFrom_cons _ _ (List.append_ne_nil_of_right_ne_nil _ h), ih,
      List.foldl_cons]

/-- An empty segment at the end is left alone. -/
theorem normalFrom_empty (before : List String) : normalFrom before [""] = before.reverse ++ [""] :=
  List.reverse_cons

/-- Segments that name no directory are left alone. -/
theorem normalFrom_of_named (before : List String) {segments : List String}
    (h : ∀ s ∈ segments, isDots s = false) :
    normalFrom before segments = before.reverse ++ segments := by
  induction segments generalizing before with
  | nil => exact (List.append_nil _).symm
  | cons s segments ih =>
    obtain ⟨habove, hhere⟩ := Bool.or_eq_false_iff.1 (h s List.mem_cons_self)
    cases segments with
    | nil =>
      rw [normalFrom, habove, hhere]
      exact List.reverse_cons
    | cons t segments =>
      rw [normalFrom_cons _ _ (List.cons_ne_nil _ _), carry, habove, hhere,
        ih _ fun s hs => h s (List.mem_cons_of_mem _ hs)]
      simp only [Bool.false_eq_true, if_false, List.reverse_cons, List.append_assoc,
        List.singleton_append]

theorem weight_carry (before : List String) (segment : String) :
    weight (carry before segment) ≤ weight before + ((percentDecode segment.toList).length + 1) ∧
      (weight (carry before segment) =
        weight before + ((percentDecode segment.toList).length + 1) → isDots segment = false) := by
  have hdrop := weight_drop_le before
  unfold carry isDots
  split
  · exact ⟨by omega, fun he => by omega⟩
  · rename_i habove
    split
    · exact ⟨by omega, fun he => by omega⟩
    · rename_i hhere
      rw [weight_cons]
      refine ⟨by omega, fun _ => ?_⟩
      rw [Bool.eq_false_iff.2 habove, Bool.eq_false_iff.2 hhere]
      rfl

/-- **Carrying out gains no weight**, and keeps it only if no segment names a directory. -/
theorem weight_normalFrom (before segments : List String) :
    weight (normalFrom before segments) ≤ weight before + weight segments ∧
      (weight (normalFrom before segments) = weight before + weight segments →
        ∀ s ∈ segments, isDots s = false) := by
  induction segments generalizing before with
  | nil =>
    rw [normalFrom, weight_reverse]
    exact ⟨Nat.le_refl _, fun _ _ hs => absurd hs List.not_mem_nil⟩
  | cons s segments ih =>
    cases segments with
    | nil =>
      cases hs : isDots s with
      | false =>
        rw [normalFrom_of_named before (by simpa using hs), weight_append, weight_reverse]
        exact ⟨Nat.le_refl _, fun _ t ht => List.mem_singleton.1 ht ▸ hs⟩
      | true =>
        -- What is left instead is an empty segment, which weighs less.
        have htwo := two_le_of_isDots hs
        have hdrop := weight_drop_le before
        have hempty : (percentDecode "".toList).length = 0 := rfl
        have hlt : weight (normalFrom before [s]) < weight before + weight [s] := by
          rw [normalFrom]
          split
          · simp only [weight_reverse, weight_cons, weight_nil, hempty]
            omega
          · split
            · simp only [weight_reverse, weight_cons, weight_nil, hempty]
              omega
            · rename_i habove hhere
              rw [isDots, Bool.eq_false_iff.2 habove, Bool.eq_false_iff.2 hhere] at hs
              cases hs
        exact ⟨Nat.le_of_lt hlt, fun he => absurd he (Nat.ne_of_lt hlt)⟩
    | cons t segments =>
      obtain ⟨hle, heq⟩ := ih (carry before s)
      obtain ⟨hcarry, hdots⟩ := weight_carry before s
      rw [normalFrom_cons _ _ (List.cons_ne_nil _ _), weight_cons s]
      refine ⟨by omega, fun he u hu => ?_⟩
      rcases List.mem_cons.1 hu with rfl | hu
      · exact hdots (by omega)
      · exact heq (by omega) u hu

/-- Whether an encoded segment without escapes names a directory can be told from the segment. -/
theorem isDots_encoded {p : List Char} (h : hasEscape p = false) :
    isDots (encoded keptInPath p) = true ↔ p = ['.'] ∨ p = ['.', '.'] := by
  constructor
  · intro hdots
    have hp : (encoded keptInPath p).toList = percentEncode keptInPath p := String.toList_ofList
    have hdecoded := percentDecode_of_isDots hdots
    rw [hp, percentDecode_encode h] at hdecoded
    exact hdecoded.imp bytes_inj bytes_inj
  · rintro (rfl | rfl)
    · decide
    · decide

end ResourceCli.Url
