import ResourceCli.Text.Split
import Mathlib.Data.List.TakeWhile

/-!
# Cutting texts and putting them together

Cutting undoes joining: the stretches between separators are the parts that were joined, as long as
no part holds the separator, and a text is cut at its first or last separator where the two halves
were put together.  Joining undoes cutting, whatever the text.

* `fields_intercalate`, `splitAt_join`: parts that are joined and cut again.
* `intercalate_fields`, `join_splitAt`: a text that is cut and joined again.
* `cutFirst_append`, `cutLast_append`: two halves that are put together and cut again.
* `stripStart_append`: a start that is put before a text and taken off again.
* `dropEndChar_append_eq_iff`: an end that is put behind a text and taken off again.
-/

namespace ResourceCli.Text

variable {sep : Char} {cs before after : List Char}

/-! ## Stretches between separators -/

theorem fields_of_notMem (h : sep ∉ cs) : fields sep cs = [cs] := by
  induction cs with
  | nil => rfl
  | cons c cs ih =>
    rw [List.mem_cons, not_or] at h
    rw [fields, if_neg (by simpa using Ne.symm h.1), ih h.2]

theorem fields_append_cons (h : sep ∉ before) (after : List Char) :
    fields sep (before ++ sep :: after) = before :: fields sep after := by
  induction before with
  | nil => rw [List.nil_append, fields, if_pos (beq_self_eq_true sep)]
  | cons c before ih =>
    rw [List.mem_cons, not_or] at h
    rw [List.cons_append, fields, if_neg (by simpa using Ne.symm h.1), ih h.2]

/-- Cutting undoes joining. -/
theorem fields_intercalate {parts : List (List Char)} (hne : parts ≠ [])
    (h : ∀ p ∈ parts, sep ∉ p) : fields sep ([sep].intercalate parts) = parts := by
  induction parts with
  | nil => exact absurd rfl hne
  | cons p parts ih =>
    cases parts with
    | nil => rw [List.intercalate_singleton, fields_of_notMem (h p List.mem_cons_self)]
    | cons q parts =>
      rw [List.intercalate_cons_cons, List.append_assoc, List.singleton_append,
        fields_append_cons (h p List.mem_cons_self),
        ih (List.cons_ne_nil _ _) fun p hp => h p (List.mem_cons_of_mem _ hp)]

/-- No stretch holds the separator. -/
theorem notMem_of_mem_fields {f : List Char} (h : f ∈ fields sep cs) : sep ∉ f := by
  induction cs generalizing f with
  | nil =>
    rw [fields, List.mem_singleton] at h
    rw [h]
    exact List.not_mem_nil
  | cons c cs ih =>
    rw [fields] at h
    split at h
    · rcases List.mem_cons.1 h with rfl | h
      · exact List.not_mem_nil
      · exact ih h
    · rename_i hc
      have hc : c ≠ sep := by simpa using hc
      split at h
      · rename_i g gs hg
        rcases List.mem_cons.1 h with rfl | h
        · rw [List.mem_cons, not_or]
          exact ⟨Ne.symm hc, ih (hg ▸ List.mem_cons_self)⟩
        · exact ih (hg ▸ List.mem_cons_of_mem _ h)
      · rw [List.mem_singleton] at h
        rw [h, List.mem_singleton]
        exact Ne.symm hc

theorem splitAt_join {parts : List String} (hne : parts ≠ []) (h : ∀ p ∈ parts, sep ∉ p.toList) :
    splitAt sep (join (String.singleton sep) parts) = parts := by
  rw [splitAt, join, String.toList_intercalate, String.toList_singleton, fields_intercalate]
  · rw [List.map_map]
    exact (List.map_congr_left fun s _ => String.ofList_toList).trans (List.map_id _)
  · simpa using hne
  · intro p hp
    obtain ⟨s, hs, rfl⟩ := List.mem_map.1 hp
    exact h s hs

/-- Joining undoes cutting. -/
theorem intercalate_fields (sep : Char) (cs : List Char) :
    [sep].intercalate (fields sep cs) = cs := by
  have hcons : ∀ (f : List Char) (fs : List (List Char)) (c : Char),
      [sep].intercalate ((c :: f) :: fs) = c :: [sep].intercalate (f :: fs) := by
    intro f fs c
    cases fs with
    | nil => rw [List.intercalate_singleton, List.intercalate_singleton]
    | cons g gs => rw [List.intercalate_cons_cons, List.intercalate_cons_cons, List.cons_append,
        List.cons_append]
  induction cs with
  | nil => rfl
  | cons c cs ih =>
    rw [fields]
    cases hf : fields sep cs with
    | nil =>
      rw [hf] at ih
      subst ih
      cases hf
    | cons f fs =>
      rw [hf] at ih
      split
      · rename_i hc
        rw [List.intercalate_cons_cons, ih, List.nil_append, List.singleton_append,
          beq_iff_eq.1 hc]
      · rw [hcons, ih]

theorem join_splitAt (sep : Char) (s : String) :
    join (String.singleton sep) (splitAt sep s) = s := by
  refine String.toList_injective ?_
  rw [splitAt, join, String.toList_intercalate, String.toList_singleton, List.map_map]
  have hid : String.toList ∘ String.ofList = id := funext fun _ => String.toList_ofList
  rw [hid, List.map_id, intercalate_fields]

/-! ## Cutting once -/

/-- A text that is cut at its first separator is what was cut off, the separator and the rest. -/
theorem append_of_cutFirst (h : cutFirst sep cs = some (before, after)) :
    cs = before ++ sep :: after := by
  induction cs generalizing before with
  | nil => cases h
  | cons c cs ih =>
    rw [cutFirst] at h
    split at h
    · rename_i hc
      cases h
      rw [List.nil_append, beq_iff_eq.1 hc]
    · obtain ⟨⟨before', after'⟩, h', he⟩ := Option.map_eq_some_iff.1 h
      cases he
      rw [List.cons_append, ← ih h']

/-- A text that is cut at its last separator is what was cut off, the separator and the rest. -/
theorem append_of_cutLast (h : cutLast sep cs = some (before, after)) :
    cs = before ++ sep :: after := by
  induction cs generalizing before with
  | nil => cases h
  | cons c cs ih =>
    rw [cutLast] at h
    split at h
    · rename_i before' after' h'
      cases h
      rw [List.cons_append, ← ih h']
    · split at h
      · rename_i hc
        cases h
        rw [List.nil_append, beq_iff_eq.1 hc]
      · cases h

theorem cutFirst_append (h : sep ∉ before) (after : List Char) :
    cutFirst sep (before ++ sep :: after) = some (before, after) := by
  induction before with
  | nil => rw [List.nil_append, cutFirst, if_pos (beq_self_eq_true sep)]
  | cons c before ih =>
    rw [List.mem_cons, not_or] at h
    rw [List.cons_append, cutFirst, if_neg (by simpa using Ne.symm h.1), ih h.2]
    rfl

theorem cutFirst_eq_none (h : sep ∉ cs) : cutFirst sep cs = none := by
  induction cs with
  | nil => rfl
  | cons c cs ih =>
    rw [List.mem_cons, not_or] at h
    rw [cutFirst, if_neg (by simpa using Ne.symm h.1), ih h.2]
    rfl

theorem cutFirst_eq_none_iff : cutFirst sep cs = none ↔ sep ∉ cs := by
  refine ⟨fun h hmem => ?_, cutFirst_eq_none⟩
  induction cs with
  | nil => cases hmem
  | cons c cs ih =>
    rw [cutFirst] at h
    split at h
    · cases h
    · rename_i hc
      rcases List.mem_cons.1 hmem with rfl | hmem
      · exact hc (beq_self_eq_true _)
      · exact ih (Option.map_eq_none_iff.1 h) hmem

/-- What is before the first separator holds no separator. -/
theorem notMem_of_cutFirst (h : cutFirst sep cs = some (before, after)) : sep ∉ before := by
  induction cs generalizing before with
  | nil => cases h
  | cons c cs ih =>
    rw [cutFirst] at h
    split at h
    · cases h
      exact List.not_mem_nil
    · rename_i hc
      obtain ⟨⟨before', after'⟩, h', he⟩ := Option.map_eq_some_iff.1 h
      cases he
      rw [List.mem_cons, not_or]
      exact ⟨fun he => hc (beq_iff_eq.2 he.symm), ih h'⟩

/-- What is left of the first cut, or of no cut, is everything up to the character to cut at. -/
theorem getD_cutFirst (sep : Char) (cs : List Char) :
    ((cutFirst sep cs).map Prod.fst).getD cs = cs.takeWhile (· != sep) := by
  cases h : cutFirst sep cs with
  | none =>
    refine (List.takeWhile_eq_self_iff.2 fun c hc => ?_).symm
    exact bne_iff_ne.2 fun he => cutFirst_eq_none_iff.1 h (he ▸ hc)
  | some p =>
    rw [append_of_cutFirst h, List.takeWhile_append_of_pos, List.takeWhile_cons_of_neg (by simp),
      List.append_nil]
    · rfl
    · exact fun c hc => bne_iff_ne.2 fun he => notMem_of_cutFirst h (he ▸ hc)

/-- What is put behind a text with a separator comes behind the cut. -/
theorem cutFirst_append_of_some (h : cutFirst sep cs = some (before, after)) (ds : List Char) :
    cutFirst sep (cs ++ ds) = some (before, after ++ ds) := by
  rw [append_of_cutFirst h, List.append_assoc, List.cons_append,
    cutFirst_append (notMem_of_cutFirst h)]

/-- What is put behind a text without a separator is cut instead. -/
theorem cutFirst_append_of_notMem (h : sep ∉ cs) (ds : List Char) :
    cutFirst sep (cs ++ ds) = (cutFirst sep ds).map fun p => (cs ++ p.1, p.2) := by
  cases hd : cutFirst sep ds with
  | none =>
    refine cutFirst_eq_none fun hmem => ?_
    exact (List.mem_append.1 hmem).elim h (cutFirst_eq_none_iff.1 hd)
  | some p =>
    have hnone : sep ∉ cs ++ p.1 := by
      rw [List.mem_append, not_or]
      exact ⟨h, notMem_of_cutFirst hd⟩
    rw [append_of_cutFirst hd, ← List.append_assoc, cutFirst_append hnone]
    rfl

theorem cutLast_eq_none_iff : cutLast sep cs = none ↔ sep ∉ cs := by
  induction cs with
  | nil => simp [cutLast]
  | cons c cs ih =>
    rw [List.mem_cons, not_or, ← ih, cutLast]
    cases hcs : cutLast sep cs with
    | some p => simp
    | none =>
      have hc : (c == sep) = true ↔ sep = c := by rw [beq_iff_eq, eq_comm]
      by_cases h : sep = c
      · simp [h]
      · simp [h, mt hc.1 h]

theorem cutLast_append (before : List Char) (h : sep ∉ after) :
    cutLast sep (before ++ sep :: after) = some (before, after) := by
  induction before with
  | nil =>
    rw [List.nil_append, cutLast, cutLast_eq_none_iff.2 h]
    exact if_pos (beq_self_eq_true sep)
  | cons c before ih =>
    rw [List.cons_append, cutLast, ih]

/-- The text after the last separator holds no separator. -/
theorem notMem_of_cutLast (h : cutLast sep cs = some (before, after)) : sep ∉ after := by
  induction cs generalizing before with
  | nil => cases h
  | cons c cs ih =>
    rw [cutLast] at h
    split at h
    · rename_i b a hba
      cases h
      exact ih hba
    · rename_i hn
      split at h
      · cases h
        exact cutLast_eq_none_iff.1 hn
      · cases h

/-- What follows the first separator is a part of the text. -/
theorem mem_of_cutFirst (h : cutFirst sep cs = some (before, after)) {c : Char} (hc : c ∈ after) :
    c ∈ cs := by
  rw [append_of_cutFirst h]
  exact List.mem_append_right _ (List.mem_cons_of_mem _ hc)

/-! ## Taking off a start -/

@[simp] theorem stripStart_empty (s : String) : stripStart "" s = some s := by
  show (stripStart? [] s.toList).map String.ofList = some s
  rw [stripStart?, Option.map_some, String.ofList_toList]

/-- What a start is taken off is the start with what is left behind it. -/
theorem append_of_stripStart {start : List Char} (h : stripStart? start cs = some after) :
    cs = start ++ after := by
  induction start generalizing cs with
  | nil =>
    cases h
    rfl
  | cons c start ih =>
    cases cs with
    | nil => cases h
    | cons d cs =>
      rw [stripStart?] at h
      split at h
      · rename_i hc
        rw [← beq_iff_eq.1 hc, ih h, List.cons_append]
      · cases h

theorem stripStart?_append (start cs : List Char) : stripStart? start (start ++ cs) = some cs := by
  induction start with
  | nil => rfl
  | cons c start ih => rw [List.cons_append, stripStart?, if_pos (beq_self_eq_true c), ih]

theorem stripStart_append (start s : String) : stripStart start (start ++ s) = some s := by
  rw [stripStart, String.toList_append, stripStart?_append, Option.map_some, String.ofList_toList]

/-- A text that does not start with the character stays as it is. -/
theorem dropStartChar_of_head? {c : Char} {s : String} (h : s.toList.head? ≠ some c) :
    dropStartChar c s = s := by
  refine String.toList_injective ?_
  rw [dropStartChar, String.toList_ofList]
  cases hs : s.toList with
  | nil => rfl
  | cons d ds =>
    rw [hs, List.head?_cons] at h
    exact List.dropWhile_cons_of_neg fun he => h (congrArg some (beq_iff_eq.1 he))

/-! ## Taking off an end -/

theorem stripEnd_eq_some_iff {tail s t : String} : stripEnd tail s = some t ↔ s = t ++ tail := by
  unfold stripEnd
  rw [Option.map_eq_some_iff]
  constructor
  · rintro ⟨cs, hcs, rfl⟩
    have hs := congrArg List.reverse (append_of_stripStart hcs)
    rw [List.reverse_append, List.reverse_reverse, List.reverse_reverse] at hs
    rw [← String.toList_inj, String.toList_append, String.toList_ofList, hs]
  · rintro rfl
    refine ⟨t.toList.reverse, ?_, by rw [List.reverse_reverse, String.ofList_toList]⟩
    rw [String.toList_append, List.reverse_append, stripStart?_append]

/-- A text that does not end with the character stays as it is. -/
theorem dropEndChar_of_getLast? {c : Char} {s : String} (h : s.toList.getLast? ≠ some c) :
    dropEndChar c s = s := by
  have hdrop : s.toList.reverse.dropWhile (· == c) = s.toList.reverse := by
    cases hr : s.toList.reverse with
    | nil => rfl
    | cons d ds =>
      rw [List.getLast?_eq_head?_reverse, hr, List.head?_cons] at h
      have hd : ¬(d == c) = true := fun he => h (congrArg some (beq_iff_eq.1 he))
      exact List.dropWhile_cons_of_neg hd
  rw [dropEndChar, hdrop, List.reverse_reverse, String.ofList_toList]

/-- What is put behind a text is taken off again only if it is made of the character. -/
theorem dropEndChar_append_eq_iff {c : Char} {s t : String} :
    dropEndChar c (s ++ t) = dropEndChar c s ↔ ∀ d ∈ t.toList, d = c := by
  have hlists : dropEndChar c (s ++ t) = dropEndChar c s ↔
      (t.toList.reverse ++ s.toList.reverse).dropWhile (· == c) =
        s.toList.reverse.dropWhile (· == c) := by
    rw [dropEndChar, dropEndChar, String.toList_append, List.reverse_append,
      String.ofList_inj, List.reverse_inj]
  rw [hlists, List.dropWhile_append]
  constructor
  · intro h d hd
    refine Decidable.byContradiction fun hne => ?_
    have hkept : ¬ (t.toList.reverse.dropWhile (· == c)).isEmpty = true := by
      rw [List.isEmpty_iff, List.dropWhile_eq_nil_iff]
      intro hall
      exact hne (beq_iff_eq.1 (hall d (List.mem_reverse.2 hd)))
    rw [if_neg hkept] at h
    have hlength := congrArg List.length h
    have hshorter := List.length_dropWhile_le (· == c) s.toList.reverse
    have hpositive := List.length_pos_iff.2 fun hnil => hkept (List.isEmpty_iff.2 hnil)
    rw [List.length_append] at hlength
    omega
  · intro h
    have hdropped : t.toList.reverse.dropWhile (· == c) = [] := by
      rw [List.dropWhile_eq_nil_iff]
      intro d hd
      exact beq_iff_eq.2 (h d (List.mem_reverse.1 hd))
    rw [hdropped, List.isEmpty_nil, if_pos rfl]

theorem dropEndChar_eq_empty_iff {c : Char} {s : String} :
    dropEndChar c s = "" ↔ ∀ d ∈ s.toList, d = c := by
  have h := dropEndChar_append_eq_iff (c := c) (s := "") (t := s)
  rwa [String.empty_append] at h

/-- What stands before a text that is not made of the character stays as it is. -/
theorem dropEndChar_append {c : Char} {t : String} (h : dropEndChar c t ≠ "") (s : String) :
    dropEndChar c (s ++ t) = s ++ dropEndChar c t := by
  have hkept : ¬ (t.toList.reverse.dropWhile (· == c)).isEmpty = true := by
    rw [List.isEmpty_iff, List.dropWhile_eq_nil_iff]
    intro hall
    exact h (dropEndChar_eq_empty_iff.2 fun d hd => beq_iff_eq.1 (hall d (List.mem_reverse.2 hd)))
  rw [dropEndChar, dropEndChar, String.toList_append, List.reverse_append, List.dropWhile_append,
    if_neg hkept, List.reverse_append, List.reverse_reverse, String.ofList_append,
    String.ofList_toList]

/-- Only a text that does not end with the character stays as it is. -/
theorem dropEndChar_eq_self_iff {c : Char} {s : String} :
    dropEndChar c s = s ↔ s.toList.getLast? ≠ some c := by
  refine ⟨fun h hlast => ?_, dropEndChar_of_getLast?⟩
  obtain ⟨ds, hds⟩ := List.getLast?_eq_some_iff.1 hlast
  have hs : s = String.ofList ds ++ String.ofList [c] := by
    rw [← String.ofList_append, ← hds, String.ofList_toList]
  have hdrop : dropEndChar c s = dropEndChar c (String.ofList ds) := by
    rw [hs, dropEndChar_append_eq_iff]
    simp
  have hshorter : (dropEndChar c (String.ofList ds)).toList.length ≤ ds.length := by
    rw [dropEndChar, String.toList_ofList, List.length_reverse, String.toList_ofList]
    exact (List.length_dropWhile_le _ _).trans (by rw [List.length_reverse])
  rw [← hdrop, h, hds, List.length_append, List.length_singleton] at hshorter
  omega

end ResourceCli.Text
