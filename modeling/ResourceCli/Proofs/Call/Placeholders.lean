import ResourceCli.Proofs.Call.Request
import ResourceCli.Proofs.Survey.Patterns

/-!
# Patterns filled in

The path of a request is a pattern with the given ids in place of its placeholders.  Two functions
work on the places of a pattern, and they do not look at the same thing.  The flags for the ids are
named after the placeholders at every other place (`Resource.parentPlaceholders`); the ids go to
every other place, whatever stands there (`Resource.collectionPath`).  So the two go together where
literals and placeholders come in turn, and only there.

`Honours` is what is asked of a request: every placeholder has a flag, the id that is given with
it stands in its place, and every literal is still there.  `Document.honours_iff_alternates` shows
that the requests for a resource honour its pattern exactly if its segments come in turn.  A path
that contributes to a resource gives it no other patterns, but a declaration can.

* `alternated_eq_fillIn`: where segments come in turn, ids at every other place are ids in place of
  the placeholders.
* `alternates_of_notMem`: if ids at every other place leave no place empty although there are only
  as many as placeholders with flags, the segments come in turn.
-/

namespace ResourceCli

/-! ## Ids at every other place -/

/-- The segments with values in place of every other one; `wrapped` says whether the first one is
replaced. -/
def alternated : (wrapped : Bool) → List String → List String → List String
  | _, [], _ => []
  | true, _ :: rest, values => values.headD "" :: alternated false rest values.tail
  | false, s :: rest, values => s :: alternated true rest values

/-- The names of the placeholders at every other place. -/
def placedNames : (wrapped : Bool) → List String → List String
  | _, [] => []
  | true, s :: rest => (placeholderName? s).toList ++ placedNames false rest
  | false, _ :: rest => placedNames true rest

/-- The segments with values in place of the placeholders, in order. -/
def fillIn : List String → List String → List String
  | [], _ => []
  | s :: rest, values =>
    if (placeholderName? s).isSome then values.headD "" :: fillIn rest values.tail
    else s :: fillIn rest values

variable {wrapped : Bool} {segments values : List String}

theorem zipIdx_eq_alternated (segments values : List String) (n : Nat) :
    ((segments.zipIdx n).map fun (segment, i) =>
      if i % 2 == 0 then segment else values.getD (i / 2) "") =
      alternated (n % 2 == 1) segments (values.drop (n / 2)) := by
  induction segments generalizing n with
  | nil => cases h : n % 2 == 1 <;> rfl
  | cons s segments ih =>
    rw [List.zipIdx_cons, List.map_cons, ih]
    dsimp only
    rcases Nat.mod_two_eq_zero_or_one n with hn | hn
    · have hnext : (n + 1) % 2 = 1 := by omega
      have hhalf : (n + 1) / 2 = n / 2 := by omega
      rw [hn, hnext, hhalf]
      rfl
    · have hnext : (n + 1) % 2 = 0 := by omega
      have hhalf : (n + 1) / 2 = n / 2 + 1 := by omega
      have hhead : values.getD (n / 2) "" = (values.drop (n / 2)).headD "" := by
        rw [List.headD_eq_head?_getD, List.head?_drop, List.getD_eq_getElem?_getD]
      rw [hn, hnext, hhalf, hhead, ← List.tail_drop]
      rfl

theorem zipIdx_eq_placedNames (segments : List String) (n : Nat) :
    ((segments.zipIdx n).filterMap fun (segment, i) =>
      if i % 2 == 1 then placeholderName? segment else none) =
      placedNames (n % 2 == 1) segments := by
  induction segments generalizing n with
  | nil => cases h : n % 2 == 1 <;> rfl
  | cons s segments ih =>
    rw [List.zipIdx_cons, List.filterMap_cons, ih]
    dsimp only
    rcases Nat.mod_two_eq_zero_or_one n with hn | hn
    · have hnext : (n + 1) % 2 = 1 := by omega
      rw [hn, hnext]
      rfl
    · have hnext : (n + 1) % 2 = 0 := by omega
      rw [hn, hnext]
      show _ = (placeholderName? s).toList ++ placedNames false segments
      cases placeholderName? s <;> rfl

/-- Where no segment and no value has a slash, no segment has one afterwards. -/
theorem slashless_alternated
    (hs : ∀ s ∈ segments, '/' ∉ s.toList) (hv : ∀ v ∈ values, '/' ∉ v.toList) :
    ∀ s ∈ alternated wrapped segments values, '/' ∉ s.toList := by
  induction segments generalizing wrapped values with
  | nil =>
    intro s hmem
    cases wrapped <;> cases hmem
  | cons t segments ih =>
    have hrest : ∀ s ∈ segments, '/' ∉ s.toList := fun s hmem => hs s (List.mem_cons_of_mem _ hmem)
    cases wrapped with
    | true =>
      intro s hmem
      rcases List.mem_cons.1 hmem with rfl | hmem
      · cases values with
        | nil => exact List.not_mem_nil
        | cons v values => exact hv v List.mem_cons_self
      · exact ih hrest (fun v hmem => hv v (List.mem_of_mem_tail hmem)) s hmem
    | false =>
      intro s hmem
      rcases List.mem_cons.1 hmem with rfl | hmem
      · exact hs s List.mem_cons_self
      · exact ih hrest hv s hmem

namespace Resource

theorem collectionPath_eq (r : Resource) (parents : List String) :
    r.collectionPath parents =
      Text.join "/" (alternated false r.collectionSegments parents) := by
  unfold collectionPath
  rw [zipIdx_eq_alternated]
  rfl

theorem parentPlaceholders_eq (r : Resource) :
    r.parentPlaceholders = placedNames false r.collectionSegments :=
  zipIdx_eq_placedNames r.collectionSegments 0

end Resource

/-! ## Segments in turn -/

theorem alternates_true_cons {s : String} (h : alternates true (s :: segments) = true) :
    (∃ name, placeholderName? s = some name) ∧ alternates false segments = true := by
  rw [alternates, Bool.and_eq_true, beq_iff_eq] at h
  exact ⟨Option.isSome_iff_exists.1 h.1, h.2⟩

theorem alternates_false_cons {s : String} (h : alternates false (s :: segments) = true) :
    placeholderName? s = none ∧ alternates true segments = true := by
  rw [alternates, Bool.and_eq_true, beq_iff_eq, Option.isSome_eq_false_iff,
    Option.isNone_iff_eq_none] at h
  exact h

/-- **Where segments come in turn, every other place is that of a placeholder.** -/
theorem alternated_eq_fillIn (h : alternates wrapped segments = true) (values : List String) :
    alternated wrapped segments values = fillIn segments values := by
  induction segments generalizing wrapped values with
  | nil => cases wrapped <;> rfl
  | cons s segments ih =>
    cases wrapped with
    | true =>
      obtain ⟨⟨name, hs⟩, hrest⟩ := alternates_true_cons h
      rw [alternated, fillIn, hs, Option.isSome_some, if_pos rfl, ih hrest]
    | false =>
      obtain ⟨hs, hrest⟩ := alternates_false_cons h
      rw [alternated, fillIn, hs, Option.isSome_none, if_neg Bool.false_ne_true, ih hrest]

theorem placedNames_eq_filterMap (h : alternates wrapped segments = true) :
    placedNames wrapped segments = segments.filterMap placeholderName? := by
  induction segments generalizing wrapped with
  | nil => cases wrapped <;> rfl
  | cons s segments ih =>
    cases wrapped with
    | true =>
      obtain ⟨⟨name, hs⟩, hrest⟩ := alternates_true_cons h
      rw [placedNames, List.filterMap_cons_some hs, hs, ih hrest]
      rfl
    | false =>
      obtain ⟨hs, hrest⟩ := alternates_false_cons h
      rw [placedNames, List.filterMap_cons_none hs, ih hrest]

/-- Values that are not empty leave no segment empty. -/
theorem empty_notMem_fillIn (hp : Plain segments)
    (hv : ∀ i < (segments.filterMap placeholderName?).length, values.getD i "" ≠ "") :
    "" ∉ fillIn segments values := by
  induction segments generalizing values with
  | nil => exact List.not_mem_nil
  | cons s segments ih =>
    have hrest : Plain segments := fun t ht => hp t (List.mem_cons_of_mem _ ht)
    rw [fillIn]
    cases hs : placeholderName? s with
    | some name =>
      rw [List.filterMap_cons_some hs, List.length_cons] at hv
      have hhead : values.headD "" ≠ "" := by
        have := hv 0 (Nat.succ_pos _)
        cases values with
        | nil => exact this
        | cons v values => exact this
      have htail : "" ∉ fillIn segments values.tail := by
        refine ih hrest fun i hi => ?_
        have := hv (i + 1) (Nat.succ_lt_succ hi)
        cases values with
        | nil => exact this
        | cons v values => exact this
      rw [Option.isSome_some, if_pos rfl, List.mem_cons, not_or]
      exact ⟨Ne.symm hhead, htail⟩
    | none =>
      rw [List.filterMap_cons_none hs] at hv
      rw [Option.isSome_none, if_neg Bool.false_ne_true, List.mem_cons, not_or]
      exact ⟨Ne.symm (hp s List.mem_cons_self).1, ih hrest hv⟩

/-! ## Segments out of turn -/

/-- Values that leave no segment empty are at least as many as the places they go to. -/
theorem length_le_of_notMem (h : "" ∉ alternated wrapped segments values) :
    (segments.length + wrapped.toNat) / 2 ≤ values.length := by
  induction segments generalizing wrapped values with
  | nil => cases wrapped <;> exact Nat.zero_le _
  | cons s segments ih =>
    cases wrapped with
    | true =>
      rw [alternated, List.mem_cons, not_or] at h
      have hrest := ih h.2
      cases values with
      | nil => exact absurd rfl h.1
      | cons v values =>
        simp only [List.length_cons, List.tail_cons, Bool.toNat_true, Bool.toNat_false] at hrest ⊢
        omega
    | false =>
      rw [alternated, List.mem_cons, not_or] at h
      have hrest := ih h.2
      simp only [List.length_cons, Bool.toNat_true, Bool.toNat_false] at hrest ⊢
      omega

/-- At every other place there are at most as many placeholders as there are such places, and as
there are placeholders. -/
theorem length_placedNames_le (wrapped : Bool) (segments : List String) :
    (placedNames wrapped segments).length ≤ (segments.length + wrapped.toNat) / 2 ∧
      (placedNames wrapped segments).length ≤ (segments.filterMap placeholderName?).length := by
  induction segments generalizing wrapped with
  | nil => cases wrapped <;> exact ⟨Nat.zero_le _, Nat.zero_le _⟩
  | cons s segments ih =>
    obtain ⟨hplaces, hnames⟩ := ih (!wrapped)
    cases wrapped <;> cases hs : placeholderName? s <;>
      simp only [placedNames, hs, List.filterMap_cons, Option.toList_some, Option.toList_none,
        List.nil_append, List.singleton_append, List.length_cons, Bool.not_true, Bool.not_false,
        Bool.toNat_true, Bool.toNat_false] at hplaces hnames ⊢ <;> omega

/-- **If there are as many placeholders at every other place as there are such places, and as there
are placeholders, the segments come in turn.** -/
theorem alternates_of_length
    (hplaces : (segments.length + wrapped.toNat) / 2 ≤ (placedNames wrapped segments).length)
    (hnames : (segments.filterMap placeholderName?).length ≤
      (placedNames wrapped segments).length) : alternates wrapped segments = true := by
  induction segments generalizing wrapped with
  | nil => rfl
  | cons s segments ih =>
    obtain ⟨hbound, hbound'⟩ := length_placedNames_le (!wrapped) segments
    -- Where a segment is out of turn, one of the two bounds is missed by one.
    cases wrapped with
    | true =>
      cases hs : placeholderName? s with
      | some name =>
        simp only [placedNames, hs, Option.toList_some, List.filterMap_cons_some hs,
          List.length_append, List.length_cons, List.length_nil, Bool.toNat_true] at hplaces hnames
        have hrest : alternates false segments = true :=
          ih (by rw [Bool.toNat_false]; omega) (by omega)
        rw [alternates, hs, Bool.and_eq_true]
        exact ⟨rfl, hrest⟩
      | none =>
        simp only [placedNames, hs, Option.toList_none, List.nil_append, List.length_cons,
          Bool.toNat_true, Bool.not_true, Bool.toNat_false] at hplaces hbound
        omega
    | false =>
      cases hs : placeholderName? s with
      | some name =>
        simp only [placedNames, List.filterMap_cons_some hs, List.length_cons] at hnames
        rw [Bool.not_false] at hbound'
        omega
      | none =>
        simp only [placedNames, List.filterMap_cons_none hs, List.length_cons,
          Bool.toNat_false] at hplaces hnames
        have hrest : alternates true segments = true :=
          ih (by rw [Bool.toNat_true]; omega) hnames
        rw [alternates, hs, Bool.and_eq_true]
        exact ⟨rfl, hrest⟩

/-- **Ids that leave no place empty although there is only one for each flag** go to placeholders
that come in turn with literals. -/
theorem alternates_of_notMem (h : "" ∉ alternated wrapped segments values)
    (hnames : placedNames wrapped segments = segments.filterMap placeholderName?)
    (hv : values.length = (placedNames wrapped segments).length) :
    alternates wrapped segments = true := by
  have hplaces := length_le_of_notMem h
  exact alternates_of_length (hv ▸ hplaces) (le_of_eq (congrArg List.length hnames.symm))

/-! ## Requests that honour a pattern -/

/-- The segments that a call itself puts behind the path of the collection. -/
def Call.ownSegments (c : Call) : List String :=
  if c.method.isSingle then Text.splitAt '/' (c.id.getD "" ++ c.method.suffix) else []

/-- The path of a request honours the pattern of a resource. -/
structure Resource.Honours (r : Resource) (c : Call) (path : String) : Prop where
  /-- There is a flag for every placeholder of a containing resource. -/
  flagged : r.parentPlaceholders = r.collectionSegments.filterMap placeholderName?
  /-- With every flag an id is given. -/
  given : ∀ i < r.parentFlags.length, c.parents.getD i "" ≠ ""
  /-- Literals stay, and in place of each placeholder stands the id given with its flag. -/
  filled : Text.splitAt '/' path = fillIn r.collectionSegments c.parents ++ c.ownSegments
  /-- No segment before the id is empty. -/
  nonempty : "" ∉ fillIn r.collectionSegments c.parents

namespace Resource

variable {r : Resource} {c : Call} {request : Request}

/-- The path of a request is that of the collection, and what the call itself puts behind it. -/
theorem splitAt_path_of_request (h : r.request c = .ok request) :
    Text.splitAt '/' request.path =
      Text.splitAt '/' (r.collectionPath c.parents) ++ c.ownSegments := by
  unfold Call.ownSegments
  cases hm : c.method.isSingle with
  | true =>
    obtain ⟨id, hid, hpath⟩ := path_of_single h hm
    rw [hpath, hid, Option.getD_some, String.append_assoc, splitAt_append]
    rfl
  | false =>
    rw [path_of_collective h hm, if_neg Bool.false_ne_true, List.append_nil]

/-- Ids without slashes stand in segments of their own. -/
theorem splitAt_collectionPath (hne : r.collectionSegments ≠ []) (hp : Plain r.collectionSegments)
    (hslash : ∀ p ∈ c.parents, '/' ∉ p.toList) :
    Text.splitAt '/' (r.collectionPath c.parents) =
      alternated false r.collectionSegments c.parents := by
  rw [collectionPath_eq]
  refine Text.splitAt_join ?_ (slashless_alternated (fun s hs => (hp s hs).2) hslash)
  obtain ⟨s, segments, hsegments⟩ := List.exists_cons_of_ne_nil hne
  rw [hsegments, alternated]
  exact List.cons_ne_nil _ _

theorem honours_of_alternates (h : r.request c = .ok request) (hp : Plain r.collectionSegments)
    (hslash : ∀ p ∈ c.parents, '/' ∉ p.toList) (hne : r.collectionSegments ≠ [])
    (halt : alternates false r.collectionSegments = true) : r.Honours c request.path := by
  have hflagged : r.parentPlaceholders = r.collectionSegments.filterMap placeholderName? := by
    rw [parentPlaceholders_eq, placedNames_eq_filterMap halt]
  have hgiven : ∀ i < r.parentFlags.length, c.parents.getD i "" ≠ "" :=
    fun _ hi => parent_ne_empty h hi
  refine ⟨hflagged, hgiven, ?_, ?_⟩
  · rw [splitAt_path_of_request h, splitAt_collectionPath hne hp hslash,
      alternated_eq_fillIn halt]
  · refine empty_notMem_fillIn hp fun i hi => hgiven i ?_
    rw [parentFlags, List.length_map, hflagged]
    exact hi

theorem alternates_of_honours (h : r.request c = .ok request) (hp : Plain r.collectionSegments)
    (hslash : ∀ p ∈ c.parents, '/' ∉ p.toList)
    (hlength : c.parents.length = r.parentFlags.length) (hh : r.Honours c request.path) :
    r.collectionSegments ≠ [] ∧ alternates false r.collectionSegments = true := by
  have hsplit := (splitAt_path_of_request h).symm.trans hh.filled
  rw [List.append_left_inj] at hsplit
  have hne : r.collectionSegments ≠ [] := by
    intro hnil
    rw [hnil] at hsplit
    exact absurd (List.map_eq_nil_iff.1 hsplit) (fields_ne_nil _ _)
  refine ⟨hne, ?_⟩
  rw [splitAt_collectionPath hne hp hslash] at hsplit
  refine alternates_of_notMem (hsplit ▸ hh.nonempty) ?_ ?_
  · rw [← parentPlaceholders_eq, hh.flagged]
  · rw [hlength, parentFlags, List.length_map, parentPlaceholders_eq]

end Resource

namespace Document

variable {doc : Document} {given : Option String} {start : String} {g : ResourceGraph}
  {r : Resource} {c : Call} {request : Request}

/-- **Which requests honour a pattern.**  Where the segments before a resource's own placeholder are
literals and placeholders in turn, a literal first, every accepted call whose ids of containing
resources have no slash makes a request that honours the pattern.  Where they are not, or where
there are none, no call does that gives one id for each flag. -/
theorem honours_iff_alternates (h : doc.resources given start = .ok g) (hr : r ∈ g.resources)
    (hc : r.request c = .ok request) (hslash : ∀ p ∈ c.parents, '/' ∉ p.toList) :
    (r.collectionSegments ≠ [] → alternates false r.collectionSegments = true →
      r.Honours c request.path) ∧
    (c.parents.length = r.parentFlags.length → r.Honours c request.path →
      r.collectionSegments ≠ [] ∧ alternates false r.collectionSegments = true) := by
  have hp : Plain r.collectionSegments := plain_collectionSegments h hr
  exact ⟨fun hne halt => r.honours_of_alternates hc hp hslash hne halt,
    fun hlength hh => r.alternates_of_honours hc hp hslash hlength hh⟩

/-- A call that gets one book, of one shelf or of one publisher. -/
def gettingBook (parent : String) : Call where
  resource := "book"
  parents := [parent]
  method := .get
  id := some "emma"

/-- The request for a book on a shelf honours the pattern of books. -/
theorem shelves_honours : ∃ g r request, shelves.resources none "" = .ok g ∧ r ∈ g.resources ∧
    r.request (gettingBook "s1") = .ok request ∧ request.path = "shelves/s1/books/emma" ∧
    r.Honours (gettingBook "s1") request.path := by
  obtain ⟨g, hg, hfacts⟩ := exists_ok_of_map_toOption
    (f := fun g : ResourceGraph => g.resources[1]?.map fun r =>
      (r.collectionSegments, (r.request (gettingBook "s1")).toOption))
    (show (shelves.resources none "").toOption.map _ =
      some (some (["shelves", "{shelf}", "books"],
        some ⟨"GET", "shelves/s1/books/emma", none, none⟩)) by decide +kernel)
  obtain ⟨r, hr, hfacts⟩ := Option.map_eq_some_iff.1 hfacts
  obtain ⟨hsegments, hrequest⟩ := Prod.mk.inj hfacts
  have hmem : r ∈ g.resources := List.mem_of_getElem? hr
  have hrequest := toOption_eq_some_iff.1 hrequest
  have hhonours := (honours_iff_alternates hg hmem hrequest (by decide)).1
    (by rw [hsegments]; decide) (by rw [hsegments]; decide)
  exact ⟨g, r, _, hg, hmem, hrequest, rfl, hhonours⟩

/-- A document with books in the shops of publishers.  The declaration of a book has two literals in
a row, which a path could not have. -/
def shops : Document where
  openapi := some "3.1.0"
  servers := [{ url := "http://localhost" }]
  paths := [("/publishers/{publisher}/books/{book}", {
    get := some { responses := answering (.refTo "#/components/schemas/Book") } })]
  components := [("Book", { Schema.typed "object" with
    declared := some {
      singular := "book"
      plural := "books"
      patterns := ["/publishers/{publisher}/shop/books/{book}"] } })]

/-- The request for a book in a shop does not honour the pattern of books: instead of a literal
stands nothing. -/
theorem shops_not_honours : ∃ g r request, shops.resources none "" = .ok g ∧ r ∈ g.resources ∧
    r.pattern = ["publishers", "{publisher}", "shop", "books", "{book}"] ∧
    r.request (gettingBook "acme") = .ok request ∧
    request.path = "publishers/acme/shop//emma" ∧
    ¬ r.Honours (gettingBook "acme") request.path := by
  obtain ⟨g, hg, hfacts⟩ := exists_ok_of_map_toOption
    (f := fun g : ResourceGraph => g.resources[0]?.map fun r =>
      (r.pattern, (r.request (gettingBook "acme")).toOption))
    (show (shops.resources none "").toOption.map _ =
      some (some (["publishers", "{publisher}", "shop", "books", "{book}"],
        some ⟨"GET", "publishers/acme/shop//emma", none, none⟩)) by decide +kernel)
  obtain ⟨r, hr, hfacts⟩ := Option.map_eq_some_iff.1 hfacts
  obtain ⟨hpattern, hrequest⟩ := Prod.mk.inj hfacts
  refine ⟨g, r, _, hg, List.mem_of_getElem? hr, hpattern, toOption_eq_some_iff.1 hrequest, rfl, ?_⟩
  intro hh
  have hfilled := hh.filled
  rw [Resource.collectionSegments, hpattern] at hfilled
  exact absurd hfilled (by decide)

end Document
end ResourceCli
