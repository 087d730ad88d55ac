import ResourceCli.Proofs.Resource.Path
import ResourceCli.Proofs.Url.Below

/-!
# Values that stay in their segments

Values are joined with slashes, put behind the URL of a server, and read as a part of one URL.  They
stay in their segments if what is read has one segment for each of them, behind those of the server,
and each segment is decoded to its value.

`kept_iff_confined` says which values stay: those without the characters that end a segment or are
passed over, without escapes, and other than `.` and `..` (`Inert`), as long as the first one is not
empty and no blank is at the end of the last one.  That these stay is a computation.  That no others
do goes by weight: on the way from the values to the decoded segments nothing can be gained, so if
nothing is lost in the end, nothing was lost on the way.
-/

namespace ResourceCli.Url

variable {cs : List Char}

/-! ## Characters that are read as they are -/

/-- Whether a character ends a segment or is passed over. -/
def isDivider (c : Char) : Bool := isSlash true c || endsPath c || isLineBreak c

/-- What is read of the path that characters behind the URL of a server make, whose slashes at the
start are dropped. -/
def pathRead (cs : List Char) : List Char :=
  (cutTail true (readable (cs.dropWhile (· == '/')))).1

/-- Characters that are read as they are. -/
structure IsPath (cs : List Char) : Prop where
  /-- There is no slash at the start. -/
  started : ∀ c ∈ cs.head?, c ≠ '/'
  /-- No character starts the query or the fragment, or is passed over. -/
  whole : ∀ c ∈ cs, endsPath c = false ∧ isLineBreak c = false
  /-- There is no blank at the end. -/
  ended : ∀ c ∈ cs.getLast?, isPadding c = false

theorem trimmed_sublist (cs : List Char) :
    (cs.reverse.dropWhile isPadding).reverse.Sublist cs := by
  have hreversed := (List.dropWhile_sublist (l := cs.reverse) isPadding).reverse
  rwa [List.reverse_reverse] at hreversed

theorem readable_sublist (cs : List Char) : (readable cs).Sublist cs :=
  List.filter_sublist.trans (trimmed_sublist cs)

/-- The path is everything up to the first character that starts the query or the fragment. -/
theorem cutTail_fst (special : Bool) (cs : List Char) :
    (cutTail special cs).1 = cs.takeWhile fun c => !endsPath c := by
  have hends : (fun c => !endsPath c) =
      fun c : Char => decide ((c != '?') = true ∧ (c != '#') = true) := by
    funext c
    rw [endsPath, Bool.not_or, Bool.decide_and, Bool.decide_coe, Bool.decide_coe]
    rfl
  rw [hends, ← List.takeWhile_takeWhile, ← Text.getD_cutFirst '#', ← Text.getD_cutFirst '?',
    cutTail]
  cases Text.cutFirst '#' cs with
  | none =>
    dsimp only [Option.map_none, Option.getD_none]
    cases Text.cutFirst '?' cs <;> rfl
  | some p =>
    dsimp only [Option.map_some, Option.getD_some]
    cases Text.cutFirst '?' p.1 <;> rfl

theorem cutTail_sublist (cs : List Char) : (cutTail true cs).1.Sublist cs := by
  rw [cutTail_fst]
  exact List.takeWhile_sublist _

/-- No character is read twice, and none that is not there. -/
theorem pathRead_sublist (cs : List Char) : (pathRead cs).Sublist cs :=
  (cutTail_sublist _).trans ((readable_sublist _).trans (List.dropWhile_sublist _))

/-- Characters that are read as they are make a path and nothing behind it. -/
theorem IsPath.cutTail_eq (h : IsPath cs) :
    cutTail true (readable (cs.dropWhile (· == '/'))) = (cs, none, none) := by
  have hstart : cs.dropWhile (· == '/') = cs :=
    dropWhile_eq_self_iff_head.2 fun c hc => beq_eq_false_iff_ne.2 (h.started c hc)
  have htrim : cs.reverse.dropWhile isPadding = cs.reverse := by
    refine dropWhile_eq_self_iff_head.2 fun c hc => h.ended c ?_
    rwa [List.getLast?_eq_head?_reverse]
  have hread : readable cs = cs := by
    rw [readable, htrim, List.reverse_reverse, List.filter_eq_self]
    intro c hc
    rw [(h.whole c hc).2]
    rfl
  have hnone : ∀ sep, endsPath sep = true → Text.cutFirst sep cs = none := by
    intro sep hsep
    refine Text.cutFirst_eq_none fun hmem => ?_
    rw [(h.whole sep hmem).1] at hsep
    cases hsep
  rw [hstart, hread, cutTail, hnone '#' rfl]
  dsimp only
  rw [hnone '?' rfl]

/-- **What is read completely is read as it is.** -/
theorem isPath_of_pathRead (h : pathRead cs = cs) : IsPath cs := by
  -- Each step leaves as many characters as there are, so each step changes nothing.
  have hcut := (cutTail_sublist (readable (cs.dropWhile (· == '/')))).length_le
  have hread := (readable_sublist (cs.dropWhile (· == '/'))).length_le
  have hdrop := (List.dropWhile_sublist (l := cs) (· == '/')).length_le
  have hlength : (cutTail true (readable (cs.dropWhile (· == '/')))).1.length = cs.length :=
    congrArg List.length h
  have hstart : cs.dropWhile (· == '/') = cs :=
    (List.dropWhile_sublist _).eq_of_length (by omega)
  rw [hstart] at hcut hread hlength
  have hreadable : readable cs = cs := (readable_sublist cs).eq_of_length (by omega)
  have hpath : (cutTail true cs).1 = cs := by
    rw [pathRead, hstart, hreadable] at h
    exact h
  have htrim : (cs.reverse.dropWhile isPadding).reverse = cs := by
    refine (trimmed_sublist cs).eq_of_length (Nat.le_antisymm (trimmed_sublist cs).length_le ?_)
    have hfiltered := List.length_filter_le (fun c => !isLineBreak c)
      (cs.reverse.dropWhile isPadding).reverse
    rwa [show List.filter _ _ = cs from hreadable] at hfiltered
  rw [cutTail_fst, List.takeWhile_eq_self_iff] at hpath
  refine ⟨fun c hc => ?_, fun c hc => ⟨by simpa using hpath c hc, ?_⟩, fun c hc => ?_⟩
  · exact beq_eq_false_iff_ne.1 (dropWhile_eq_self_iff_head.1 hstart c hc)
  · rw [readable, htrim, List.filter_eq_self] at hreadable
    simpa using hreadable c hc
  · rw [List.getLast?_eq_head?_reverse] at hc
    refine dropWhile_eq_self_iff_head.1 ?_ c hc
    rw [← List.reverse_inj, htrim, List.reverse_reverse]

/-! ## Values joined with slashes -/

variable {segments before : List String}

/-- The characters of values joined with slashes, with one more slash before them. -/
theorem cons_join (hne : segments ≠ []) :
    '/' :: (Text.join "/" segments).toList = segments.flatMap fun s => '/' :: s.toList := by
  rw [← toList_path hne, String.toList_append]
  rfl

theorem size_join (hne : segments ≠ []) :
    size (Text.join "/" segments).toList + 1 = (segments.map fun s => size s.toList + 1).sum := by
  have hslash : '/'.utf8Size = 1 := rfl
  have hsize := congrArg size (cons_join hne)
  simp only [size_flatMap, size_cons, hslash, Nat.add_comm 1] at hsize
  exact hsize

theorem countP_join (hne : segments ≠ []) :
    (Text.join "/" segments).toList.countP (isSlash true) + 1 =
      (segments.map fun s => s.toList.countP (isSlash true) + 1).sum := by
  have hslash : isSlash true '/' = true := rfl
  have hcount := congrArg (List.countP (isSlash true)) (cons_join hne)
  rw [List.countP_cons_of_pos hslash, List.countP_flatMap] at hcount
  rw [hcount]
  congr 2
  funext s
  exact List.countP_cons_of_pos hslash

/-- A character of joined values is a slash or one of a value. -/
theorem mem_join {c : Char} (hne : segments ≠ []) (hc : c ≠ '/') :
    c ∈ (Text.join "/" segments).toList ↔ ∃ s ∈ segments, c ∈ s.toList := by
  have hcons : c ∈ (Text.join "/" segments).toList ↔ c ∈ '/' :: (Text.join "/" segments).toList :=
    (List.mem_cons.trans (or_iff_right hc)).symm
  rw [hcons, cons_join hne, List.mem_flatMap]
  exact exists_congr fun s => and_congr_right fun _ => List.mem_cons.trans (or_iff_right hc)

/-- The last character of joined values is that of the last one, unless that one is empty. -/
theorem getLast_join (hne : segments ≠ []) :
    (Text.join "/" segments).toList.getLast?.getD '/' =
      (segments.getLast?.bind fun s => s.toList.getLast?).getD '/' := by
  have hlast := congrArg List.getLast? (cons_join hne)
  obtain ⟨init, last, rfl⟩ := exists_eq_append_singleton hne
  rw [List.flatMap_append, List.flatMap_singleton, List.getLast?_append, List.getLast?_cons,
    List.getLast?_cons, Option.some_or, Option.some.injEq] at hlast
  rw [hlast, List.getLast?_concat]
  rfl

/-- Of several values the first one starts what they are joined to, and a slash follows. -/
theorem join_cons_cons (s t : String) (segments : List String) :
    (Text.join "/" (s :: t :: segments)).toList =
      s.toList ++ '/' :: (Text.join "/" (t :: segments)).toList := by
  have hcons := cons_join (List.cons_ne_nil s (t :: segments))
  rw [List.flatMap_cons, ← cons_join (List.cons_ne_nil t segments), List.cons_append] at hcons
  exact (List.cons.inj hcons).2

/-! ## Values that stay -/

/-- A value that reading a URL leaves alone in its segment. -/
structure Inert (value : String) : Prop where
  /-- No character ends the segment or is passed over. -/
  whole : ∀ c ∈ value.toList, isDivider c = false
  /-- No percent sign has two hexadecimal digits behind it. -/
  unescaped : hasEscape value.toList = false
  /-- The value does not name a directory. -/
  named : value ≠ "." ∧ value ≠ ".."

/-- Values that stay in their segments. -/
structure Confined (values : List String) : Prop where
  /-- Reading leaves each of them alone. -/
  inert : ∀ v ∈ values, Inert v
  /-- The first one is not empty. -/
  started : values.head? ≠ some ""
  /-- The last one has no blank at its end. -/
  ended : ∀ c ∈ values.getLast?.bind fun v => v.toList.getLast?, isPadding c = false

theorem isPadding_getD {o : Option Char} :
    (∀ c ∈ o, isPadding c = false) ↔ isPadding (o.getD '/') = false := by
  cases o with
  | none => exact iff_of_true (fun _ h => nomatch h) rfl
  | some c => simp

-- The first part goes through the characters of the value.  As a statement about every character it
-- would be decided by going through all characters there are.
theorem inert_iff {value : String} :
    Inert value ↔ (value.toList.all fun c => !isDivider c) = true ∧ hasEscape value.toList = false ∧
      value ≠ "." ∧ value ≠ ".." := by
  have hwhole : (value.toList.all fun c => !isDivider c) = true ↔
      ∀ c ∈ value.toList, isDivider c = false := by simp
  rw [hwhole]
  exact ⟨fun h => ⟨h.whole, h.unescaped, h.named⟩, fun ⟨hwhole, hescape, hnamed⟩ =>
    ⟨hwhole, hescape, hnamed⟩⟩

instance (value : String) : Decidable (Inert value) := decidable_of_iff _ inert_iff.symm

theorem confined_iff_inert {values : List String} :
    Confined values ↔ (∀ v ∈ values, Inert v) ∧ values.head? ≠ some "" ∧
      isPadding ((values.getLast?.bind fun v => v.toList.getLast?).getD '/') = false := by
  rw [← isPadding_getD]
  exact ⟨fun h => ⟨h.inert, h.started, h.ended⟩, fun ⟨hinert, hstart, hend⟩ =>
    ⟨hinert, hstart, hend⟩⟩

instance (values : List String) : Decidable (Confined values) :=
  decidable_of_iff _ confined_iff_inert.symm

/-- **Values stay if they are joined to a path, and each is a segment of it that is read as it
is.** -/
theorem confined_iff (hlength : 2 ≤ segments.length) :
    Confined segments ↔ IsPath (Text.join "/" segments).toList ∧
      ∀ s ∈ segments, (∀ c ∈ s.toList, isSlash true c = false) ∧ hasEscape s.toList = false ∧
        s ≠ "." ∧ s ≠ ".." := by
  match segments, hlength with
  | s :: t :: segments, _ =>
    have hne := List.cons_ne_nil s (t :: segments)
    constructor
    · intro h
      have hslash : ∀ v ∈ s :: t :: segments, ∀ c ∈ v.toList, isSlash true c = false := by
        intro v hv c hc
        exact (Bool.or_eq_false_iff.1 (Bool.or_eq_false_iff.1 ((h.inert v hv).whole c hc)).1).1
      refine ⟨⟨fun c hc => ?_, fun c hc => ?_, ?_⟩, fun v hv =>
        ⟨hslash v hv, (h.inert v hv).unescaped, (h.inert v hv).named⟩⟩
      · rw [join_cons_cons, List.head?_append] at hc
        cases hs : s.toList with
        | nil => exact absurd (congrArg some (String.toList_eq_nil_iff.1 hs)) h.started
        | cons d ds =>
          rw [hs] at hc
          cases hc
          rintro rfl
          cases hslash s List.mem_cons_self '/' (hs ▸ List.mem_cons_self)
      · by_cases hcslash : c = '/'
        · subst hcslash
          exact ⟨rfl, rfl⟩
        · obtain ⟨v, hv, hc⟩ := (mem_join hne hcslash).1 hc
          obtain ⟨hends, hbreak⟩ := Bool.or_eq_false_iff.1 ((h.inert v hv).whole c hc)
          exact ⟨(Bool.or_eq_false_iff.1 hends).2, hbreak⟩
      · rw [isPadding_getD, getLast_join hne, ← isPadding_getD]
        exact h.ended
    · rintro ⟨hpath, hall⟩
      refine ⟨fun v hv => ?_, fun hhead => ?_, ?_⟩
      · obtain ⟨hslash, hescape, hnamed⟩ := hall v hv
        refine ⟨fun c hc => ?_, hescape, hnamed⟩
        have hcslash : c ≠ '/' := by
          rintro rfl
          cases hslash '/' hc
        obtain ⟨hends, hbreak⟩ := hpath.whole c ((mem_join hne hcslash).2 ⟨v, hv, hc⟩)
        rw [isDivider, hslash c hc, hends, hbreak]
        rfl
      · cases hhead
        refine hpath.started '/' ?_ rfl
        rw [join_cons_cons]
        rfl
      · rw [isPadding_getD, ← getLast_join hne, ← isPadding_getD]
        exact hpath.ended

/-- Numbers that are not zero are all one if their sum is how many they are. -/
theorem eq_zero_of_sum_le_length {α : Type} {f : α → Nat} {l : List α}
    (h : (l.map fun a => f a + 1).sum ≤ l.length) : ∀ a ∈ l, f a = 0 := by
  induction l with
  | nil => exact fun _ ha => absurd ha List.not_mem_nil
  | cons a l ih =>
    have hle : l.length ≤ (l.map fun a => f a + 1).sum := by
      have := List.length_le_sum_of_one_le (l.map fun a => f a + 1) (by simp)
      rwa [List.length_map] at this
    rw [List.map_cons, List.sum_cons, List.length_cons] at h
    intro b hb
    rcases List.mem_cons.1 hb with rfl | hb
    · omega
    · exact ih (by omega) b hb

/-- Values without slashes are what they are cut into when they are joined. -/
theorem segmentsOf_join (hne : segments ≠ [])
    (h : ∀ s ∈ segments, ∀ c ∈ s.toList, isSlash true c = false) :
    segmentsOf true (Text.join "/" segments).toList = segments.map String.toList := by
  have hjoin : (Text.join "/" segments).toList = ['/'].intercalate (segments.map String.toList) :=
    String.toList_intercalate
  rw [hjoin]
  refine segmentsOf_intercalate (by simpa using hne) fun p hp => ?_
  obtain ⟨s, hs, rfl⟩ := List.mem_map.1 hp
  exact h s hs

/-- The segments that joined values are read as, encoded. -/
def segmentsRead (values : List String) : List String :=
  (segmentsOf true (pathRead (Text.join "/" values).toList)).map (encoded keptInPath)

/-- **Values that are decoded from what is read of them** are read as they are. -/
theorem isPath_of_kept (hne : segments ≠ []) {kept : List String}
    (hnormal : normalFrom before (segmentsRead segments) = before.reverse ++ kept)
    (hkept : kept.map (fun s => percentDecode s.toList) = segments.map Text.utf8Encode) :
    IsPath (Text.join "/" segments).toList ∧
      ∀ s ∈ segments, (∀ c ∈ s.toList, isSlash true c = false) ∧ hasEscape s.toList = false ∧
        s ≠ "." ∧ s ≠ ".." := by
  have hweight : weight kept = (segments.map fun s => size s.toList + 1).sum := by
    have hsum := congrArg (fun l => (l.map fun b : Text.Bytes => b.length + 1).sum) hkept
    simp only [List.map_map] at hsum
    exact hsum
  have htotal := congrArg weight hnormal
  rw [weight_append, weight_reverse, hweight] at htotal
  -- From the values to what is kept nothing is gained.  Nothing is lost in the end, so nothing was
  -- lost on the way.
  obtain ⟨hcarried, hdots⟩ := weight_normalFrom before (segmentsRead segments)
  obtain ⟨hencoded, hescapes⟩ :=
    weight_encoded (segmentsOf true (pathRead (Text.join "/" segments).toList))
  obtain ⟨hread, hwhole⟩ := size_of_sublist (pathRead_sublist (Text.join "/" segments).toList)
  have hsegments := size_segmentsOf (pathRead (Text.join "/" segments).toList)
  have hjoin := size_join hne
  unfold segmentsRead at hnormal htotal hcarried hdots
  have hpath := hwhole (by omega)
  have hdots := hdots (by omega)
  have hescapes := hescapes (by omega)
  rw [hpath] at hnormal hdots hescapes
  -- There are as many segments as values, so no value has a slash.
  rw [normalFrom_of_named before hdots, List.append_cancel_left_eq] at hnormal
  have hlength : (segmentsOf true (Text.join "/" segments).toList).length = segments.length := by
    have := congrArg List.length hkept
    rwa [List.length_map, List.length_map, ← hnormal, List.length_map] at this
  rw [length_segmentsOf, countP_join hne] at hlength
  have hslash : ∀ s ∈ segments, ∀ c ∈ s.toList, isSlash true c = false := fun s hs c hc =>
    Bool.eq_false_iff.2 (List.countP_eq_zero.1
      (eq_zero_of_sum_le_length (le_of_eq hlength) s hs) c hc)
  rw [segmentsOf_join hne hslash] at hdots hescapes
  refine ⟨isPath_of_pathRead hpath, fun s hs => ?_⟩
  have hescape := hescapes s.toList (List.mem_map_of_mem hs)
  have hdots := hdots _ (List.mem_map_of_mem (List.mem_map_of_mem hs))
  refine ⟨hslash s hs, hescape, ?_, ?_⟩
  · rintro rfl
    rw [(isDots_encoded hescape).2 (.inl rfl)] at hdots
    cases hdots
  · rintro rfl
    rw [(isDots_encoded hescape).2 (.inr rfl)] at hdots
    cases hdots

/-- Confined values are carried out as they are. -/
theorem normalFrom_of_confined (hlength : 2 ≤ segments.length) (h : Confined segments)
    (before : List String) :
    normalFrom before (segmentsRead segments) =
      before.reverse ++ segments.map fun s => encoded keptInPath s.toList := by
  have hne : segments ≠ [] := by
    rintro rfl
    cases hlength
  obtain ⟨hpath, hall⟩ := (confined_iff hlength).1 h
  have hsame : pathRead (Text.join "/" segments).toList = (Text.join "/" segments).toList :=
    congrArg Prod.fst hpath.cutTail_eq
  have hread : segmentsRead segments = segments.map fun s => encoded keptInPath s.toList := by
    rw [segmentsRead, hsame, segmentsOf_join hne fun s hs => (hall s hs).1, List.map_map]
    rfl
  rw [hread]
  refine normalFrom_of_named before fun e he => Bool.eq_false_iff.2 fun hdots => ?_
  obtain ⟨s, hs, rfl⟩ := List.mem_map.1 he
  obtain ⟨-, hescape, hhere, habove⟩ := hall s hs
  rcases (isDots_encoded hescape).1 hdots with hs | hs
  · exact hhere (String.toList_injective hs)
  · exact habove (String.toList_injective hs)

/-- A value without escapes is decoded from what is written for it. -/
theorem percentDecode_encoded {value : String} (h : hasEscape value.toList = false) :
    percentDecode (encoded keptInPath value.toList).toList = Text.utf8Encode value := by
  rw [encoded, String.toList_ofList, percentDecode_encode h]
  rfl

/-- Confined values are decoded from what is written for them. -/
theorem map_percentDecode_encoded (h : Confined segments) :
    (segments.map fun s => encoded keptInPath s.toList).map (fun e => percentDecode e.toList) =
      segments.map Text.utf8Encode := by
  rw [List.map_map]
  exact List.map_congr_left fun s hs => percentDecode_encoded (h.inert s hs).unescaped

/-- **Which values stay in their segments.**  Behind any segments, what is read of joined values has
one segment for each of them that is decoded to it, exactly if they are confined. -/
theorem kept_iff_confined (hlength : 2 ≤ segments.length) (before : List String) :
    (∃ kept, normalFrom before (segmentsRead segments) = before.reverse ++ kept ∧
      kept.map (fun s => percentDecode s.toList) = segments.map Text.utf8Encode) ↔
      Confined segments := by
  constructor
  · rintro ⟨kept, hnormal, hkept⟩
    have hne : segments ≠ [] := by
      rintro rfl
      cases hlength
    exact (confined_iff hlength).2 (isPath_of_kept hne hnormal hkept)
  · intro h
    exact ⟨_, normalFrom_of_confined hlength h before, map_percentDecode_encoded h⟩

end ResourceCli.Url
