import ResourceCli.Proofs.Resource.MethodPath

/-!
# Paths are read without loss

A path that addresses resources is read as its segments, and a path with a method name as a pattern
and that name.  Both readings can be undone: what was read says what the path was, the slashes at
its start aside, and whatever such a path can be written from is read off it again.

The two readings do not cut alike.  Segments are cut at every slash, once a single slash is taken
off the start; a second one there would be an empty segment, and the path is not read at all.  A
method name is cut off at the first colon behind the last slash, and every slash is taken off the
start.  So a name may have colons in it, and a pattern may be empty or have empty segments.

* `IsRoute`: the segments that the paths of resources are made of, said by their places.
* `classify_eq_some_iff`: which paths address resources, and what they are read as.
* `splitCustomMethod_slash`: which patterns and names are read off a path that is written from them.
* `paths_lossless`: both readings, in both directions.
-/

namespace ResourceCli

/-! ## Routes -/

/-- The segments of a path that addresses resources. -/
structure IsRoute (segments : List String) : Prop where
  /-- There is a segment. -/
  ne_nil : segments ≠ []
  /-- No segment is empty, and none has a slash in it. -/
  plain : Plain segments
  /-- Counted from zero, the segments at odd places are names in braces, and no others are. -/
  wrapped_iff : ∀ i (hi : i < segments.length),
    (∃ name, segments[i] = placeholder name) ↔ i % 2 = 1

theorem isRoute_iff {segments : List String} :
    IsRoute segments ↔ segments ≠ [] ∧ Plain segments ∧ alternates false segments = true := by
  rw [alternates_iff]
  exact ⟨fun h => ⟨h.ne_nil, h.plain, h.wrapped_iff⟩, fun ⟨hne, hplain, hturn⟩ =>
    ⟨hne, hplain, hturn⟩⟩

instance (segments : List String) : Decidable (IsRoute segments) :=
  decidable_of_iff _ isRoute_iff.symm

/-! ## The slash at the start of a path -/

/-- A path without the slash at its start, if there is one. -/
def dropSlash (path : String) : String :=
  match path.toList with
  | '/' :: rest => String.ofList rest
  | _ => path

theorem dropSlash_append (path : String) : dropSlash ("/" ++ path) = path := by
  have hchars : ("/" ++ path).toList = '/' :: path.toList := String.toList_append
  rw [dropSlash, hchars]
  exact String.ofList_toList

theorem dropSlash_of_head? {path : String} (h : path.toList.head? ≠ some '/') :
    dropSlash path = path := by
  unfold dropSlash
  split
  · rename_i hc
    rw [hc] at h
    exact absurd rfl h
  · rfl

theorem getD_stripStart_slash (path : String) :
    (Text.stripStart "/" path).getD path = dropSlash path := by
  by_cases h : path.toList.head? = some '/'
  · obtain ⟨rest, hrest⟩ := List.head?_eq_some_iff.1 h
    have hpath : path = "/" ++ String.ofList rest := by
      refine String.toList_injective ?_
      simp [hrest]
    rw [hpath, Text.stripStart_append, Option.getD_some, dropSlash_append]
  · rw [dropSlash_of_head? h]
    cases hstrip : Text.stripStart "/" path with
    | none => rfl
    | some rest =>
      obtain ⟨cs, hcs, -⟩ := Option.map_eq_some_iff.1 hstrip
      rw [Text.append_of_stripStart hcs] at h
      exact absurd rfl h

/-- The slash at the start of a path says nothing about what the path addresses. -/
theorem classify_dropSlash (path : String) :
    classify? ("/" ++ dropSlash path) = classify? path := by
  unfold classify?
  rw [getD_stripStart_slash, getD_stripStart_slash, dropSlash_append]

theorem IsRoute.dropSlash_join {segments : List String} (h : IsRoute segments) :
    dropSlash (Text.join "/" segments) = Text.join "/" segments := by
  obtain ⟨s, segments, rfl⟩ := List.exists_cons_of_ne_nil h.ne_nil
  obtain ⟨hs, hslash⟩ := h.plain s List.mem_cons_self
  exact dropSlash_of_head? (head?_join hs hslash segments)

/-! ## Both readings -/

/-- **Which paths address resources**: those that are, a slash at their start aside, a route. -/
theorem classify_eq_some_iff {path : String} {segments : List String} {kind : PathKind} :
    classify? path = some (segments, kind) ↔
      IsRoute segments ∧ (kind = .item ↔ segments.length % 2 = 0) ∧
        dropSlash path = Text.join "/" segments := by
  rw [← kind_eq_iff]
  constructor
  · intro h
    obtain ⟨hplain, hne, hturn, hkind⟩ := of_classify h
    have hroute : IsRoute segments := isRoute_iff.2 ⟨hne, hplain, hturn⟩
    refine ⟨hroute, hkind, ?_⟩
    rcases path_of_classify h with rfl | rfl
    · exact dropSlash_append _
    · exact hroute.dropSlash_join
  · rintro ⟨hroute, rfl, hpath⟩
    obtain ⟨hne, hplain, hturn⟩ := isRoute_iff.1 hroute
    rw [← classify_dropSlash, hpath, classify_path hplain hne hturn]

/-- A route is read off its path, whether or not the path starts with a slash. -/
theorem IsRoute.exists_classify {segments : List String} (h : IsRoute segments) :
    ∃ kind, classify? (Text.join "/" segments) = some (segments, kind) ∧
      classify? ("/" ++ Text.join "/" segments) = some (segments, kind) := by
  obtain ⟨hne, hplain, hturn⟩ := isRoute_iff.1 h
  have hread := classify_path hplain hne hturn
  refine ⟨_, ?_, hread⟩
  rw [← classify_dropSlash, h.dropSlash_join, hread]

/-- A pattern and a method name are read off the path that is written from them. -/
theorem splitCustomMethod_slash {pattern name : String} (hstart : pattern.toList.head? ≠ some '/')
    (hcolon : ':' ∉ lastSegment pattern) (hname : name ≠ "") (hslash : '/' ∉ name.toList) :
    splitCustomMethod? ("/" ++ pattern ++ ":" ++ name) = some (pattern, name) := by
  refine splitCustomMethod_eq_some_iff.2 ⟨?_, hcolon, hname, hslash⟩
  have hdrop := dropStartChar_slashes_append ['/'] (by simp) pattern
  rw [dropStartChar_append_colon, show "/" = String.ofList ['/'] from rfl, hdrop,
    Text.dropStartChar_of_head? hstart]

/-- A second slash at the start of a path is one too many for its segments, but not for its method
name. -/
example :
    classify? "//books" = none ∧ splitCustomMethod? "//books:sort" = some ("books", "sort") := by
  decide

/-- **Paths are read without loss.**  Segments are read off a path exactly if they are a route and,
joined, are the path without one slash at its start; the path addresses one resource exactly if
their number is even.  Every route is read off the path it is joined to, with and without a slash
before it.  A pattern and a method name are read off a path exactly if they are, with a colon
between them, the path without the slashes at its start, the last segment of the pattern has no
colon, and the name is not empty and has no slash.  Each such pattern that does not start with a
slash is read, with the name, off the path written from both. -/
theorem paths_lossless :
    (∀ path segments kind, classify? path = some (segments, kind) ↔
      IsRoute segments ∧ (kind = .item ↔ segments.length % 2 = 0) ∧
        dropSlash path = Text.join "/" segments) ∧
    (∀ segments, IsRoute segments → ∃ kind,
      classify? (Text.join "/" segments) = some (segments, kind) ∧
        classify? ("/" ++ Text.join "/" segments) = some (segments, kind)) ∧
    (∀ path pattern name, splitCustomMethod? path = some (pattern, name) ↔
      Text.dropStartChar '/' path = pattern ++ ":" ++ name ∧
        ':' ∉ pattern.toList.rtakeWhile (· != '/') ∧ name ≠ "" ∧ '/' ∉ name.toList) ∧
    ∀ pattern name : String, pattern.toList.head? ≠ some '/' →
      ':' ∉ pattern.toList.rtakeWhile (· != '/') → name ≠ "" → '/' ∉ name.toList →
        splitCustomMethod? ("/" ++ pattern ++ ":" ++ name) = some (pattern, name) := by
  refine ⟨fun _ _ _ => classify_eq_some_iff, fun _ hroute => hroute.exists_classify,
    fun path pattern name => ?_, fun pattern name hstart hcolon hname hslash => ?_⟩
  · rw [splitCustomMethod_eq_some_iff, lastSegment_eq_rtakeWhile]
  · rw [← lastSegment_eq_rtakeWhile] at hcolon
    exact splitCustomMethod_slash hstart hcolon hname hslash

/-- A route that ends with a literal; and a method name with a colon in it, behind a pattern with an
empty segment and with a colon in a segment that is not its last. -/
theorem shelfPaths_lossless :
    (IsRoute ["shelves", placeholder "shelf", "books"] ∧ ∃ kind,
      classify? "shelves/\x7bshelf\x7d/books" =
          some (["shelves", placeholder "shelf", "books"], kind) ∧
        classify? "/shelves/\x7bshelf\x7d/books" =
          some (["shelves", placeholder "shelf", "books"], kind)) ∧
      ("shelves//a:b/c".toList.head? ≠ some '/' ∧
        ':' ∉ "shelves//a:b/c".toList.rtakeWhile (· != '/') ∧
        "lend:now" ≠ "" ∧ '/' ∉ "lend:now".toList) ∧
      splitCustomMethod? "/shelves//a:b/c:lend:now" = some ("shelves//a:b/c", "lend:now") := by
  have hroute : IsRoute ["shelves", placeholder "shelf", "books"] := by decide
  have hstart : "shelves//a:b/c".toList.head? ≠ some '/' := by decide
  have hcolon : ':' ∉ "shelves//a:b/c".toList.rtakeWhile (· != '/') := by decide
  have hname : "lend:now" ≠ "" ∧ '/' ∉ "lend:now".toList := by decide
  refine ⟨⟨hroute, ?_⟩, ⟨hstart, hcolon, hname⟩, ?_⟩
  · exact paths_lossless.2.1 ["shelves", placeholder "shelf", "books"] hroute
  · exact paths_lossless.2.2.2 "shelves//a:b/c" "lend:now" hstart hcolon hname.1 hname.2

end ResourceCli
