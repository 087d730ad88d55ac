import ResourceCli.Proofs.Text.Cutting
import ResourceCli.Resource.Pattern

/-!
# Segments and the paths made of them

A path is written from segments and read back into them.  Nothing is lost on the way as long as the
segments are plain: none is empty and none has a slash in it.

* `placeholderName?_eq_some_iff`, `alternates_iff`: which segments are placeholders, and which come
  in turn.
* `of_classify`, `name_of_splitCustomMethod`, `plain_splitPattern`: what is read off any path.
* `classify_path`, `splitPattern_path`, `splitCustomMethod_path`, `splitCustomMethod_path_colon`:
  what is read off a path that was written from plain segments.
* `IsItemPattern`: the shape of patterns that address one resource.
-/

namespace ResourceCli

/-- Segments of which none is empty and none has a slash in it. -/
def Plain (segments : List String) : Prop := ∀ s ∈ segments, s ≠ "" ∧ '/' ∉ s.toList

instance (segments : List String) : Decidable (Plain segments) :=
  inferInstanceAs (Decidable (∀ s ∈ segments, s ≠ "" ∧ '/' ∉ s.toList))

theorem splitAt_path {segments : List String} (h : Plain segments) (hne : segments ≠ []) :
    Text.splitAt '/' (Text.join "/" segments) = segments :=
  Text.splitAt_join hne fun p hp => (h p hp).2

namespace Plain

variable {segments segments' : List String}

theorem nil : Plain [] := fun _ h => absurd h List.not_mem_nil

theorem append (h : Plain segments) (h' : Plain segments') : Plain (segments ++ segments') := by
  intro s hs
  rcases List.mem_append.1 hs with hs | hs
  · exact h s hs
  · exact h' s hs

theorem dropLast (h : Plain segments) : Plain segments.dropLast :=
  fun s hs => h s (List.dropLast_subset _ hs)

theorem join_ne_empty (h : Plain segments) (hne : segments ≠ []) :
    Text.join "/" segments ≠ "" := by
  intro he
  have hsplit := splitAt_path h hne
  rw [he] at hsplit
  exact (h "" (hsplit ▸ List.mem_singleton.2 rfl)).1 rfl

/-- Plain segments can be read off the text that they are joined to. -/
theorem join_inj (h : Plain segments) (h' : Plain segments')
    (hj : Text.join "/" segments = Text.join "/" segments') : segments = segments' := by
  by_cases hne : segments = []
  · by_cases hne' : segments' = []
    · rw [hne, hne']
    · rw [hne] at hj
      exact absurd hj.symm (h'.join_ne_empty hne')
  · by_cases hne' : segments' = []
    · rw [hne'] at hj
      exact absurd hj (h.join_ne_empty hne)
    · rw [← splitAt_path h hne, ← splitAt_path h' hne', hj]

end Plain

/-! ## The characters of a path -/

/-- A path, segment by segment. -/
theorem toList_path {segments : List String} (hne : segments ≠ []) :
    ("/" ++ Text.join "/" segments).toList = segments.flatMap fun s => '/' :: s.toList := by
  rw [String.toList_append, Text.join, String.toList_intercalate]
  show '/' :: ['/'].intercalate (segments.map String.toList) = _
  induction segments with
  | nil => exact absurd rfl hne
  | cons s segments ih =>
    cases segments with
    | nil =>
      rw [List.map_cons, List.map_nil, List.intercalate_singleton, List.flatMap_cons,
        List.flatMap_nil, List.append_nil]
    | cons t segments =>
      rw [List.map_cons, List.map_cons, List.intercalate_cons_cons, List.flatMap_cons,
        ← ih (List.cons_ne_nil _ _), List.map_cons, List.append_assoc, List.singleton_append,
        List.cons_append]

/-- Segments that are joined start with a character of the first one. -/
theorem exists_toList_join {s : String} (hs : s ≠ "") (hslash : '/' ∉ s.toList)
    (segments : List String) :
    ∃ c cs, (Text.join "/" (s :: segments)).toList = c :: cs ∧ c ≠ '/' := by
  cases hc : s.toList with
  | nil => exact absurd (String.toList_eq_nil_iff.1 hc) hs
  | cons c cs =>
    have hne : c ≠ '/' := fun he => hslash (hc ▸ he ▸ List.mem_cons_self)
    have hpath := toList_path (List.cons_ne_nil s segments)
    rw [String.toList_append, List.flatMap_cons, hc] at hpath
    exact ⟨c, _, List.cons.inj hpath |>.2, hne⟩

/-- So there is no slash at their start. -/
theorem head?_join {s : String} (hs : s ≠ "") (hslash : '/' ∉ s.toList) (segments : List String) :
    (Text.join "/" (s :: segments)).toList.head? ≠ some '/' := by
  obtain ⟨c, cs, hjoin, hc⟩ := exists_toList_join hs hslash segments
  rw [hjoin, List.head?_cons]
  exact fun he => hc (Option.some.inj he)

/-- The slashes at the start of a path are the one that was put there. -/
theorem dropWhile_path {segments : List String} (h : Plain segments) (hne : segments ≠ [])
    (rest : List Char) :
    (("/" ++ Text.join "/" segments).toList ++ rest).dropWhile (· == '/') =
      (Text.join "/" segments).toList ++ rest := by
  obtain ⟨s, segments, rfl⟩ := List.exists_cons_of_ne_nil hne
  obtain ⟨hs, hslash⟩ := h s List.mem_cons_self
  obtain ⟨c, cs, hjoin, hc⟩ := exists_toList_join hs hslash segments
  rw [String.toList_append, hjoin]
  show ('/' :: (c :: cs ++ rest)).dropWhile _ = c :: cs ++ rest
  rw [List.dropWhile_cons_of_pos (by rfl), List.cons_append,
    List.dropWhile_cons_of_neg (by simpa using hc)]

theorem exists_eq_append_singleton {segments : List String} (hne : segments ≠ []) :
    ∃ init last, segments = init ++ [last] :=
  ⟨_, _, (List.dropLast_concat_getLast hne).symm⟩

/-- The last segment of a path is what its last slash cuts off. -/
theorem cutLast_path (init : List String) {last : String} {rest : List Char}
    (hlast : '/' ∉ last.toList) (hrest : '/' ∉ rest) :
    Text.cutLast '/' (((init ++ [last]).flatMap fun s => '/' :: s.toList) ++ rest) =
      some (init.flatMap fun s => '/' :: s.toList, last.toList ++ rest) := by
  rw [List.flatMap_append, List.flatMap_singleton, List.append_assoc, List.cons_append]
  refine Text.cutLast_append _ fun hmem => ?_
  rcases List.mem_append.1 hmem with hmem | hmem
  · exact hlast hmem
  · exact hrest hmem

/-! ## Placeholders -/

theorem toList_placeholder (name : String) :
    (placeholder name).toList = '{' :: (name.toList ++ ['}']) := by
  rw [placeholder, String.toList_append, String.toList_append]
  rfl

/-- A segment with a name in braces is the placeholder of that name. -/
theorem placeholderName?_eq_some_iff {s name : String} :
    placeholderName? s = some name ↔ s = placeholder name := by
  constructor
  · intro h
    unfold placeholderName? at h
    split at h
    · rename_i rest hs
      split at h
      · rename_i hlast
        cases h
        obtain ⟨inner, rfl⟩ := List.getLast?_eq_some_iff.1 (beq_iff_eq.1 hlast)
        refine String.toList_injective ?_
        rw [toList_placeholder, String.toList_ofList, hs, List.dropLast_concat]
      · cases h
    · cases h
  · rintro rfl
    rw [placeholderName?, toList_placeholder]
    simp

theorem isSome_placeholderName?_iff {s : String} :
    (placeholderName? s).isSome = true ↔ ∃ name, s = placeholder name := by
  simp only [Option.isSome_iff_exists, placeholderName?_eq_some_iff]

/-! ## Segments in turn -/

/-- Segments come in turn if each is a placeholder or not by where it stands. -/
theorem alternates_iff {wrapped : Bool} {segments : List String} :
    alternates wrapped segments = true ↔ ∀ i (hi : i < segments.length),
      (∃ name, segments[i] = placeholder name) ↔ (i + wrapped.toNat) % 2 = 1 := by
  induction segments generalizing wrapped with
  | nil => exact iff_of_true rfl fun i hi => absurd hi (Nat.not_lt_zero i)
  | cons s segments ih =>
    have hfirst : ((placeholderName? s).isSome == wrapped) = true ↔
        ((∃ name, s = placeholder name) ↔ (0 + wrapped.toNat) % 2 = 1) := by
      rw [← isSome_placeholderName?_iff]
      cases (placeholderName? s).isSome <;> cases wrapped <;> decide
    -- The segments behind the first one stand one place earlier, and the other kind comes next.
    have hnext : ∀ i, (i + 1 + wrapped.toNat) % 2 = (i + (!wrapped).toNat) % 2 := by
      intro i
      cases wrapped with
      | false => rfl
      | true => exact Nat.add_mod_right i 2
    rw [alternates, Bool.and_eq_true, ih, hfirst]
    constructor
    · rintro ⟨hs, hrest⟩ i hi
      cases i with
      | zero => exact hs
      | succ i =>
        rw [List.getElem_cons_succ, hnext]
        exact hrest i (Nat.lt_of_succ_lt_succ hi)
    · intro h
      refine ⟨h 0 (Nat.zero_lt_succ _), fun i hi => ?_⟩
      rw [← hnext]
      exact h (i + 1) (Nat.succ_lt_succ hi)

/-! ## Reading a path -/

/-- The segments of a path that was written from segments in turn, and what it addresses. -/
theorem classify_path {segments : List String} (h : Plain segments) (hne : segments ≠ [])
    (halt : alternates false segments = true) :
    classify? ("/" ++ Text.join "/" segments) =
      some (segments, if segments.length % 2 == 0 then .item else .collection) := by
  have hempty : segments.contains "" = false := by
    rw [Bool.eq_false_iff, Ne, List.contains_iff_mem]
    exact fun hm => (h "" hm).1 rfl
  unfold classify?
  rw [Text.stripStart_append, Option.getD_some, splitAt_path h hne]
  simp only [hempty, halt, Bool.not_true, Bool.or_self, Bool.false_eq_true, if_false]

theorem splitPattern_path {segments : List String} (h : Plain segments) (hne : segments ≠ []) :
    splitPattern ("/" ++ Text.join "/" segments) = segments := by
  have hdrop := dropWhile_path h hne []
  rw [List.append_nil, List.append_nil] at hdrop
  rw [splitPattern, Text.dropStartChar, hdrop, String.ofList_toList, splitAt_path h hne]
  refine List.filter_eq_self.2 fun s hs => ?_
  exact bne_iff_ne.2 (h s hs).1

/-- A path without colons has no method name. -/
theorem splitCustomMethod_path {segments : List String} (h : Plain segments) (hne : segments ≠ [])
    (hcolon : ∀ s ∈ segments, ':' ∉ s.toList) :
    splitCustomMethod? ("/" ++ Text.join "/" segments) = none := by
  obtain ⟨init, last, rfl⟩ := exists_eq_append_singleton hne
  have hlast : last ∈ init ++ [last] := List.mem_append_right _ (List.mem_singleton.2 rfl)
  have hcut := cutLast_path init (h last hlast).2 (List.not_mem_nil (a := '/'))
  rw [List.append_nil, List.append_nil] at hcut
  unfold splitCustomMethod?
  rw [toList_path hne, hcut, Option.getD_some]
  simp only [Text.cutFirst_eq_none (hcolon last hlast), Option.bind_eq_bind, Option.bind_none]

/-- A path with a colon and a name put behind it has this method name, unless its last segment has
a colon already. -/
theorem splitCustomMethod_append {path name : String}
    (hlast : ':' ∉ ((Text.cutLast '/' path.toList).getD ([], path.toList)).2) (hname : name ≠ "")
    (hslash : '/' ∉ name.toList) :
    splitCustomMethod? (path ++ ":" ++ name) = some (Text.dropStartChar '/' path, name) := by
  have hempty : name.toList.isEmpty = false := by
    rw [List.isEmpty_eq_false_iff]
    exact fun he => hname (String.toList_eq_nil_iff.1 he)
  have hrest : '/' ∉ ':' :: name.toList := by
    rw [List.mem_cons, not_or]
    exact ⟨by decide, hslash⟩
  have hchars : (path ++ ":" ++ name).toList = path.toList ++ ':' :: name.toList := by
    rw [String.toList_append, String.toList_append, List.append_assoc]
    rfl
  unfold splitCustomMethod?
  rw [hchars]
  cases hcut : Text.cutLast '/' path.toList with
  | none =>
    rw [hcut, Option.getD_none] at hlast
    have hwhole : '/' ∉ path.toList ++ ':' :: name.toList := by
      rw [List.mem_append, not_or]
      exact ⟨Text.cutLast_eq_none_iff.1 hcut, hrest⟩
    rw [Text.cutLast_eq_none_iff.2 hwhole, Option.getD_none]
    simp only [Text.cutFirst_append hlast, Option.bind_eq_bind, Option.bind_some, hempty,
      Bool.false_eq_true, if_false, List.isEmpty_nil, if_true, String.ofList_toList,
      Text.dropStartChar]
  | some p =>
    obtain ⟨head, last⟩ := p
    rw [hcut, Option.getD_some] at hlast
    have hpath := Text.append_of_cutLast hcut
    have hcut' : Text.cutLast '/' (path.toList ++ ':' :: name.toList) =
        some (head, last ++ ':' :: name.toList) := by
      rw [hpath, List.append_assoc, List.cons_append]
      refine Text.cutLast_append _ fun hmem => ?_
      exact (List.mem_append.1 hmem).elim (Text.notMem_of_cutLast hcut) hrest
    -- The slash that cuts off the last segment is dropped with the others if nothing is before it.
    have hdrop : (if head.isEmpty then last else head ++ '/' :: last).dropWhile (· == '/') =
        path.toList.dropWhile (· == '/') := by
      rw [hpath]
      split
      · rename_i hnil
        rw [List.isEmpty_iff.1 hnil, List.nil_append, List.dropWhile_cons_of_pos (by rfl)]
      · rfl
    rw [hcut', Option.getD_some]
    simp only [Text.cutFirst_append hlast, Option.bind_eq_bind, Option.bind_some, hempty,
      Bool.false_eq_true, if_false, String.ofList_toList, hdrop, Text.dropStartChar]

theorem splitCustomMethod_path_colon {segments : List String} (h : Plain segments)
    (hne : segments ≠ []) (hcolon : ∀ s ∈ segments, ':' ∉ s.toList) {name : String}
    (hname : name ≠ "") (hslash : '/' ∉ name.toList) :
    splitCustomMethod? ("/" ++ Text.join "/" segments ++ ":" ++ name) =
      some (Text.join "/" segments, name) := by
  have hdrop := dropWhile_path h hne []
  rw [List.append_nil, List.append_nil] at hdrop
  obtain ⟨init, last, rfl⟩ := exists_eq_append_singleton hne
  have hlast : last ∈ init ++ [last] := List.mem_append_right _ (List.mem_singleton.2 rfl)
  have hcut := cutLast_path init (h last hlast).2 (List.not_mem_nil (a := '/'))
  rw [List.append_nil, List.append_nil, ← toList_path hne] at hcut
  rw [splitCustomMethod_append ?_ hname hslash, Text.dropStartChar, hdrop, String.ofList_toList]
  rw [hcut, Option.getD_some]
  exact hcolon last hlast

/-! ## What is read off any path -/

theorem fields_ne_nil (sep : Char) (cs : List Char) : Text.fields sep cs ≠ [] := by
  cases cs with
  | nil => exact List.cons_ne_nil _ _
  | cons c cs =>
    rw [Text.fields]
    split
    · exact List.cons_ne_nil _ _
    · split <;> exact List.cons_ne_nil _ _

/-- A path is cut at a slash, and so are the parts before and after it. -/
theorem splitAt_append (s t : String) :
    Text.splitAt '/' (s ++ "/" ++ t) = Text.splitAt '/' s ++ Text.splitAt '/' t := by
  have hfields : ∀ cs ds : List Char,
      Text.fields '/' (cs ++ '/' :: ds) = Text.fields '/' cs ++ Text.fields '/' ds := by
    intro cs ds
    induction cs with
    | nil => exact Text.fields_append_cons List.not_mem_nil ds
    | cons c cs ih =>
      rw [List.cons_append, Text.fields, Text.fields, ih]
      by_cases hc : (c == '/') = true
      · rw [if_pos hc, if_pos hc, List.cons_append]
      · rw [if_neg hc, if_neg hc]
        obtain ⟨f, fs, hf⟩ := List.exists_cons_of_ne_nil (fields_ne_nil '/' cs)
        rw [hf]
        rfl
  have hchars : (s ++ "/" ++ t).toList = s.toList ++ '/' :: t.toList := by
    rw [String.toList_append, String.toList_append, List.append_assoc]
    rfl
  rw [Text.splitAt, hchars, hfields, List.map_append]
  rfl

/-- What a path addresses is said by whether the number of its segments is even. -/
theorem kind_eq_iff {kind : PathKind} {n : Nat} :
    (kind = if n % 2 == 0 then .item else .collection) ↔ (kind = .item ↔ n % 2 = 0) := by
  by_cases hn : n % 2 = 0
  · rw [if_pos (beq_iff_eq.2 hn), iff_true_right hn]
  · rw [if_neg (by simpa using hn), iff_false_right hn]
    cases kind <;> simp

/-- The segments of a path that addresses resources are plain, and literals and placeholders in
turn; how many they are says what is addressed. -/
theorem of_classify {path : String} {segments : List String} {kind : PathKind}
    (h : classify? path = some (segments, kind)) :
    Plain segments ∧ segments ≠ [] ∧ alternates false segments = true ∧
      kind = if segments.length % 2 == 0 then .item else .collection := by
  unfold classify? at h
  dsimp only at h
  split at h
  · cases h
  · rename_i hok
    cases h
    rw [Bool.not_eq_true, Bool.or_eq_false_iff, Bool.not_eq_false'] at hok
    obtain ⟨hempty, halt⟩ := hok
    refine ⟨fun s hs => ⟨?_, ?_⟩, ?_, halt, rfl⟩
    · rintro rfl
      rw [List.contains_iff_mem.2 hs] at hempty
      cases hempty
    · obtain ⟨f, hf, rfl⟩ := List.mem_map.1 hs
      rw [String.toList_ofList]
      exact Text.notMem_of_mem_fields hf
    · rw [Text.splitAt, Ne, List.map_eq_nil_iff]
      exact fields_ne_nil _ _

/-- A path that addresses resources is its segments with slashes between them, with or without one
before them. -/
theorem path_of_classify {path : String} {segments : List String} {kind : PathKind}
    (h : classify? path = some (segments, kind)) :
    path = "/" ++ Text.join "/" segments ∨ path = Text.join "/" segments := by
  have hsegments : Text.splitAt '/' ((Text.stripStart "/" path).getD path) = segments := by
    unfold classify? at h
    dsimp only at h
    split at h
    · cases h
    · cases h
      rfl
  rw [← hsegments]
  have hjoin := Text.join_splitAt '/' ((Text.stripStart "/" path).getD path)
  rw [show String.singleton '/' = "/" from rfl] at hjoin
  rw [hjoin]
  cases hstrip : Text.stripStart "/" path with
  | none => exact .inr rfl
  | some rest =>
    left
    unfold Text.stripStart at hstrip
    obtain ⟨cs, hcs, rfl⟩ := Option.map_eq_some_iff.1 hstrip
    have hchars : (String.ofList cs).toList = cs := String.toList_ofList
    refine String.toList_injective ?_
    rw [String.toList_append, Option.getD_some, Text.append_of_stripStart hcs, hchars]

/-- The slashes before the segments of a path aside, the path is its segments. -/
theorem dropStartChar_of_classify {path : String} {segments : List String} {kind : PathKind}
    (h : classify? path = some (segments, kind)) :
    Text.dropStartChar '/' path = Text.join "/" segments := by
  obtain ⟨hplain, hne, -, -⟩ := of_classify h
  have hdrop := dropWhile_path hplain hne []
  rw [List.append_nil, List.append_nil, String.toList_append] at hdrop
  have hdrop : ('/' :: (Text.join "/" segments).toList).dropWhile (· == '/') =
      (Text.join "/" segments).toList := hdrop
  rw [Text.dropStartChar]
  rcases path_of_classify h with rfl | rfl
  · rw [String.toList_append]
    show String.ofList (('/' :: (Text.join "/" segments).toList).dropWhile _) = _
    rw [hdrop, String.ofList_toList]
  · rw [List.dropWhile_cons_of_pos (by rfl)] at hdrop
    rw [hdrop, String.ofList_toList]

/-- The method name of a path is not empty and has no slash in it. -/
theorem name_of_splitCustomMethod {path pattern name : String}
    (h : splitCustomMethod? path = some (pattern, name)) : name ≠ "" ∧ '/' ∉ name.toList := by
  unfold splitCustomMethod? at h
  obtain ⟨⟨segment, after⟩, hcut, h⟩ := Option.bind_eq_some_iff.1 h
  dsimp only at h hcut
  split at h
  · cases h
  · rename_i hne
    cases h
    rw [String.toList_ofList]
    refine ⟨fun he => hne ?_, fun hmem => ?_⟩
    · rw [String.ofList_eq_empty_iff.1 he]
      rfl
    · have hlast := Text.mem_of_cutFirst hcut hmem
      cases hc : Text.cutLast '/' path.toList with
      | none =>
        rw [hc] at hlast
        exact Text.cutLast_eq_none_iff.1 hc hlast
      | some p =>
        rw [hc] at hlast
        exact Text.notMem_of_cutLast hc hlast

/-- The segments of a declared pattern are plain. -/
theorem plain_splitPattern (pattern : String) : Plain (splitPattern pattern) := by
  intro s hs
  obtain ⟨hs, hne⟩ := List.mem_filter.1 hs
  obtain ⟨f, hf, rfl⟩ := List.mem_map.1 hs
  rw [String.toList_ofList]
  exact ⟨bne_iff_ne.1 hne, Text.notMem_of_mem_fields hf⟩

/-! ## Patterns that address one resource -/

/-- A pattern that addresses one resource: literals and placeholders in turn, a literal first and a
placeholder last, and no colon. -/
structure IsItemPattern (pattern : List String) : Prop where
  /-- Literals and placeholders come in turn, a literal first. -/
  inTurn : alternates false pattern = true
  /-- The last segment is a placeholder. -/
  own : ∃ s ∈ pattern.getLast?, (placeholderName? s).isSome = true
  /-- No segment has a colon in it. -/
  colonless : ∀ s ∈ pattern, ':' ∉ s.toList

theorem isItemPattern_iff {pattern : List String} :
    IsItemPattern pattern ↔ alternates false pattern = true ∧
      (pattern.getLast?.bind placeholderName?).isSome = true ∧
      ∀ s ∈ pattern, ':' ∉ s.toList := by
  have hown : (∃ s ∈ pattern.getLast?, (placeholderName? s).isSome = true) ↔
      (pattern.getLast?.bind placeholderName?).isSome = true := by
    cases pattern.getLast? <;> simp
  constructor
  · intro h
    exact ⟨h.inTurn, hown.1 h.own, h.colonless⟩
  · rintro ⟨hturn, hlast, hcolon⟩
    exact ⟨hturn, hown.2 hlast, hcolon⟩

instance (pattern : List String) : Decidable (IsItemPattern pattern) :=
  decidable_of_iff _ isItemPattern_iff.symm

theorem alternates_dropLast {wrapped : Bool} {segments : List String}
    (h : alternates wrapped segments = true) : alternates wrapped segments.dropLast = true := by
  refine alternates_iff.2 fun i hi => ?_
  rw [List.getElem_dropLast]
  exact alternates_iff.1 h i _

/-- Of segments in turn, the last one is a placeholder or not by how many they are. -/
theorem isSome_getLast {wrapped : Bool} {segments : List String} {last : String}
    (h : alternates wrapped segments = true) (hl : segments.getLast? = some last) :
    (placeholderName? last).isSome = (wrapped == (segments.length % 2 == 1)) := by
  rw [List.getLast?_eq_getElem?] at hl
  obtain ⟨hlength, hlast⟩ := List.getElem?_eq_some_iff.1 hl
  have hplace := alternates_iff.1 h _ hlength
  rw [hlast, ← isSome_placeholderName?_iff] at hplace
  rw [Bool.eq_iff_iff, hplace]
  cases wrapped <;> simp only [Bool.toNat_true, Bool.toNat_false, beq_iff_eq, Bool.false_beq,
    Bool.true_beq, Bool.not_eq_true', beq_eq_false_iff_ne] <;> omega

/-- A placeholder ends with its brace. -/
theorem getLast_of_placeholder {s : String} (h : (placeholderName? s).isSome = true) :
    s.toList.getLast? = some '}' := by
  obtain ⟨name, hname⟩ := Option.isSome_iff_exists.1 h
  rw [placeholderName?_eq_some_iff.1 hname, toList_placeholder, ← List.cons_append,
    List.getLast?_concat]

/-- A path that addresses one resource ends with the brace of a placeholder. -/
theorem getLast_of_classify {path : String} {segments : List String}
    (h : classify? path = some (segments, .item)) : path.toList.getLast? = some '}' := by
  obtain ⟨-, hne, hturn, hkind⟩ := of_classify h
  obtain ⟨init, last, rfl⟩ := exists_eq_append_singleton hne
  have hplaceholder : (placeholderName? last).isSome = true := by
    rw [isSome_getLast hturn List.getLast?_concat]
    rw [(kind_eq_iff.1 hkind).1 rfl]
    rfl
  have hlast := getLast_of_placeholder hplaceholder
  have hpath : ("/" ++ Text.join "/" (init ++ [last])).toList.getLast? = some '}' := by
    rw [toList_path hne, List.flatMap_append, List.flatMap_singleton, List.getLast?_append,
      List.getLast?_cons, hlast]
    rfl
  rcases path_of_classify h with rfl | rfl
  · exact hpath
  · rw [String.toList_append, List.getLast?_append] at hpath
    cases hjoin : (Text.join "/" (init ++ [last])).toList.getLast? with
    | none =>
      rw [hjoin] at hpath
      cases hpath
    | some c =>
      rw [hjoin] at hpath
      exact hpath

/-- A path that addresses one resource and has no method name gets one by a colon and a name put
behind it. -/
theorem splitCustomMethod_of_classify {path name : String} {segments : List String}
    (h : classify? path = some (segments, .item)) (hbare : splitCustomMethod? path = none)
    (hname : name ≠ "") (hslash : '/' ∉ name.toList) :
    splitCustomMethod? (path ++ ":" ++ name) = some (Text.join "/" segments, name) := by
  rw [splitCustomMethod_append ?_ hname hslash, dropStartChar_of_classify h]
  have hend := getLast_of_classify h
  unfold splitCustomMethod? at hbare
  obtain ⟨⟨head, last⟩, hcut⟩ :
      ∃ p, (Text.cutLast '/' path.toList).getD ([], path.toList) = p := ⟨_, rfl⟩
  have hlast : last.getLast? = some '}' := by
    cases hc : Text.cutLast '/' path.toList with
    | none =>
      rw [hc] at hcut
      cases hcut
      exact hend
    | some p =>
      rw [hc] at hcut
      cases hcut
      rw [Text.append_of_cutLast hc, List.getLast?_append, List.getLast?_cons] at hend
      cases hlast : last.getLast? with
      | none =>
        rw [hlast] at hend
        cases hend
      | some c =>
        rw [hlast] at hend
        exact hend
  rw [hcut] at hbare ⊢
  intro hcolon
  -- Behind a colon there would be a name, since the path ends with a brace.
  cases hfirst : Text.cutFirst ':' last with
  | none => exact Text.cutFirst_eq_none_iff.1 hfirst hcolon
  | some p =>
    obtain ⟨segment, after⟩ := p
    simp only [hfirst, Option.bind_eq_bind, Option.bind_some] at hbare
    split at hbare
    · rename_i hnil
      rw [Text.append_of_cutFirst hfirst, List.isEmpty_iff.1 hnil, List.getLast?_concat] at hlast
      cases hlast
    · cases hbare

namespace IsItemPattern

variable {pattern : List String}

theorem even (h : IsItemPattern pattern) : pattern.length % 2 = 0 := by
  obtain ⟨last, hl, hsome⟩ := h.own
  rw [isSome_getLast h.inTurn hl] at hsome
  have hodd : (pattern.length % 2 == 1) = false := by simpa using hsome
  have := beq_eq_false_iff_ne.1 hodd
  omega

theorem ne_nil (h : IsItemPattern pattern) : pattern ≠ [] := by
  rintro rfl
  obtain ⟨_, hl, -⟩ := h.own
  cases hl

theorem length_dropLast (h : IsItemPattern pattern) : pattern.dropLast.length % 2 = 1 := by
  have heven := h.even
  have hpos := List.length_pos_iff.2 h.ne_nil
  rw [List.length_dropLast]
  omega

theorem dropLast_ne_nil (h : IsItemPattern pattern) : pattern.dropLast ≠ [] := by
  intro hnil
  have := h.length_dropLast
  rw [hnil] at this
  cases this

/-- The path of one resource addresses one resource. -/
theorem classify_item (h : IsItemPattern pattern) (hp : Plain pattern) :
    classify? ("/" ++ Text.join "/" pattern) = some (pattern, .item) := by
  rw [classify_path hp h.ne_nil h.inTurn, h.even]
  rfl

/-- The path without the resource's own placeholder addresses all resources of the kind. -/
theorem classify_collection (h : IsItemPattern pattern) (hp : Plain pattern) :
    classify? ("/" ++ Text.join "/" pattern.dropLast) = some (pattern.dropLast, .collection) := by
  rw [classify_path hp.dropLast h.dropLast_ne_nil (alternates_dropLast h.inTurn), h.length_dropLast]
  rfl

end IsItemPattern

end ResourceCli
