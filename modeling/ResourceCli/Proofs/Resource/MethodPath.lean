import ResourceCli.Proofs.Resource.Path
import Mathlib.Data.List.DropRight

/-!
# Paths with a method name

A path has a method name if its last segment has a colon and something behind it.  The path is cut
at the first colon of that segment, so what is before the cut has no colon in its own last segment,
and the slashes that it starts with are dropped.  Nothing else is lost: the slashes at its start
aside, the path is the pattern, a colon and the name (`splitCustomMethod_eq_some_iff`).  In
particular two paths that differ in the slashes at their start only have the same pattern and name.
-/

namespace ResourceCli

/-- The characters behind the last slash of a path; all of them if there is none. -/
def lastSegment (path : String) : List Char :=
  ((Text.cutLast '/' path.toList).getD ([], path.toList)).2

/-- A slash before a path does not change its last segment. -/
theorem getD_cutLast_slash_cons (cs : List Char) :
    ((Text.cutLast '/' ('/' :: cs)).getD ([], '/' :: cs)).2 =
      ((Text.cutLast '/' cs).getD ([], cs)).2 := by
  rw [Text.cutLast]
  cases Text.cutLast '/' cs <;> rfl

/-- Slashes before a path do not change its last segment. -/
theorem lastSegment_slashes_append (slashes : List Char) (hs : ∀ c ∈ slashes, c = '/')
    (path : String) : lastSegment (String.ofList slashes ++ path) = lastSegment path := by
  unfold lastSegment
  rw [String.toList_append, String.toList_ofList]
  induction slashes with
  | nil => rfl
  | cons c slashes ih =>
    obtain rfl : c = '/' := hs c List.mem_cons_self
    rw [List.cons_append, getD_cutLast_slash_cons]
    exact ih fun c hc => hs c (List.mem_cons_of_mem _ hc)

/-- The last segment of a path is its longest end without a slash. -/
theorem lastSegment_eq_rtakeWhile (path : String) :
    lastSegment path = path.toList.rtakeWhile (· != '/') := by
  unfold lastSegment
  cases hcut : Text.cutLast '/' path.toList with
  | none =>
    rw [Option.getD_none, List.rtakeWhile_eq_self_iff.2]
    exact fun c hc => bne_iff_ne.2 fun he => Text.cutLast_eq_none_iff.1 hcut (he ▸ hc)
  | some p =>
    obtain ⟨head, last⟩ := p
    have hlast : ∀ c ∈ last.reverse, (c != '/') = true := fun c hc =>
      bne_iff_ne.2 fun he => Text.notMem_of_cutLast hcut (he ▸ List.mem_reverse.1 hc)
    rw [Option.getD_some, Text.append_of_cutLast hcut, List.rtakeWhile, List.reverse_append,
      List.reverse_cons, List.append_assoc, List.takeWhile_append_of_pos hlast,
      List.singleton_append, List.takeWhile_cons_of_neg (by decide), List.append_nil,
      List.reverse_reverse]

/-- A path with a method name is cut at the first colon of its last segment. -/
theorem exists_of_splitCustomMethod {path pattern name : String}
    (h : splitCustomMethod? path = some (pattern, name)) :
    ∃ whole, path = whole ++ ":" ++ name ∧ ':' ∉ lastSegment whole ∧
      pattern = Text.dropStartChar '/' whole := by
  unfold splitCustomMethod? at h
  cases hcut : Text.cutLast '/' path.toList with
  | none =>
    simp only [hcut, Option.getD_none, Option.bind_eq_bind, Option.bind_eq_some_iff] at h
    obtain ⟨⟨segment, after⟩, hfirst, h⟩ := h
    split at h
    · cases h
    · cases h
      have hlast := Text.append_of_cutFirst hfirst
      have hslash : '/' ∉ segment := fun hmem =>
        Text.cutLast_eq_none_iff.1 hcut (hlast ▸ List.mem_append_left _ hmem)
      refine ⟨String.ofList segment, ?_, ?_, ?_⟩
      · refine String.toList_injective ?_
        simpa using hlast
      · rw [lastSegment, String.toList_ofList, Text.cutLast_eq_none_iff.2 hslash]
        exact Text.notMem_of_cutFirst hfirst
      · rw [Text.dropStartChar, String.toList_ofList]
        rfl
  | some p =>
    obtain ⟨head, last⟩ := p
    simp only [hcut, Option.getD_some, Option.bind_eq_bind, Option.bind_eq_some_iff] at h
    obtain ⟨⟨segment, after⟩, hfirst, h⟩ := h
    split at h
    · cases h
    · cases h
      have hlast := Text.append_of_cutFirst hfirst
      have hslash : '/' ∉ segment := fun hmem =>
        Text.notMem_of_cutLast hcut (hlast ▸ List.mem_append_left _ hmem)
      refine ⟨String.ofList (head ++ '/' :: segment), ?_, ?_, ?_⟩
      · refine String.toList_injective ?_
        rw [Text.append_of_cutLast hcut, hlast]
        simp
      · rw [lastSegment, String.toList_ofList, Text.cutLast_append head hslash]
        exact Text.notMem_of_cutFirst hfirst
      · rw [Text.dropStartChar, String.toList_ofList]
        cases head <;> rfl

/-- Slashes are dropped at the start of a path only. -/
theorem dropStartChar_append_colon (whole name : String) :
    Text.dropStartChar '/' (whole ++ ":" ++ name) =
      Text.dropStartChar '/' whole ++ ":" ++ name := by
  have hchars : (whole ++ ":" ++ name).toList = whole.toList ++ ':' :: name.toList := by
    rw [String.toList_append, String.toList_append, List.append_assoc]
    rfl
  refine String.toList_injective ?_
  rw [Text.dropStartChar, String.toList_ofList, hchars, String.toList_append,
    String.toList_append, Text.dropStartChar, String.toList_ofList, List.dropWhile_append,
    List.append_assoc]
  split
  · rename_i hnil
    rw [List.isEmpty_iff.1 hnil]
    rfl
  · rfl

/-- A path is slashes and what is left without them. -/
theorem exists_slashes (path : String) :
    ∃ slashes : List Char, (∀ c ∈ slashes, c = '/') ∧
      path = String.ofList slashes ++ Text.dropStartChar '/' path := by
  refine ⟨path.toList.takeWhile (· == '/'), fun c hc => ?_, ?_⟩
  · exact beq_iff_eq.1 (List.mem_takeWhile_imp (p := (· == '/')) hc)
  · refine String.toList_injective ?_
    rw [String.toList_append, String.toList_ofList, Text.dropStartChar, String.toList_ofList,
      List.takeWhile_append_dropWhile]

/-- Once the slashes are dropped there are none at the start. -/
theorem dropStartChar_dropStartChar (path : String) :
    Text.dropStartChar '/' (Text.dropStartChar '/' path) = Text.dropStartChar '/' path := by
  rw [Text.dropStartChar, Text.dropStartChar, String.toList_ofList, List.dropWhile_idempotent]

theorem dropStartChar_slashes_append (slashes : List Char) (hs : ∀ c ∈ slashes, c = '/')
    (path : String) :
    Text.dropStartChar '/' (String.ofList slashes ++ path) = Text.dropStartChar '/' path := by
  rw [Text.dropStartChar, Text.dropStartChar, String.toList_append, String.toList_ofList,
    List.dropWhile_append_of_pos fun c hc => beq_iff_eq.2 (hs c hc)]

/-- **Which paths have a method name**: those that are, the slashes at their start aside, a pattern
without a colon in its last segment, a colon and a name without a slash. -/
theorem splitCustomMethod_eq_some_iff {path pattern name : String} :
    splitCustomMethod? path = some (pattern, name) ↔
      Text.dropStartChar '/' path = pattern ++ ":" ++ name ∧ ':' ∉ lastSegment pattern ∧
        name ≠ "" ∧ '/' ∉ name.toList := by
  constructor
  · intro h
    obtain ⟨hne, hslash⟩ := name_of_splitCustomMethod h
    obtain ⟨whole, rfl, hcolon, rfl⟩ := exists_of_splitCustomMethod h
    obtain ⟨slashes, hs, hwhole⟩ := exists_slashes whole
    refine ⟨dropStartChar_append_colon whole name, ?_, hne, hslash⟩
    rw [hwhole, lastSegment_slashes_append slashes hs] at hcolon
    exact hcolon
  · rintro ⟨hpath, hcolon, hne, hslash⟩
    obtain ⟨slashes, hs, hwhole⟩ := exists_slashes path
    rw [hpath, ← String.append_assoc, ← String.append_assoc] at hwhole
    have hstart : Text.dropStartChar '/' pattern = pattern := by
      have htwice := dropStartChar_dropStartChar path
      rw [hpath, dropStartChar_append_colon] at htwice
      exact (String.append_left_inj _).1 ((String.append_left_inj _).1 htwice)
    have hlast : ':' ∉ lastSegment (String.ofList slashes ++ pattern) := by
      rwa [lastSegment_slashes_append slashes hs]
    rw [hwhole, splitCustomMethod_append hlast hne hslash,
      dropStartChar_slashes_append slashes hs, hstart]

end ResourceCli
