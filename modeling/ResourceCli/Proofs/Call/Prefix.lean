import ResourceCli.Proofs.Call.Target
import ResourceCli.Proofs.Survey.Kept

/-!
# Prefixes and addresses

The paths of a document may share a start that belongs to the server rather than to the resources,
such as a version.  A survey that is given such a prefix takes it off every path that starts with
it, and puts it behind the URL of the server.  So a request goes back to the path of the document,
and the prefix is not missed: that holds for the paths that have it.

A path without the prefix is taken as it is, and the prefix is put behind the URL of the server all
the same.  The request for a resource that was found there has the prefix too.

* `Document.firstFound?`: the path that a resource is first found on.
* `Call.fill`: a path with the values of a call in it.
* `Document.address_of_firstFound`: where a request for a resource that is not declared goes, for
  every prefix: behind the server and the prefix stands what is left of the path that the resource
  was first found on, with the values of the call.
* `Document.versionedBooks_astray`: a path without the prefix.
-/

namespace ResourceCli

/-- The segments of a path, whatever slashes stand before them. -/
def pathSegments (path : String) : List String :=
  Text.splitAt '/' (Text.dropStartChar '/' path)

theorem pathSegments_of_classify {path : String} {segments : List String} {kind : PathKind}
    (h : classify? path = some (segments, kind)) : pathSegments path = segments := by
  obtain ⟨hplain, hne, -, -⟩ := of_classify h
  rw [pathSegments, dropStartChar_of_classify h, splitAt_path hplain hne]

/-! ## Paths with the values of a call -/

/-- The segments of the collection that a path belongs to: an own placeholder at its end is left
out. -/
def collectionOf (segments : List String) : List String :=
  if segments.length % 2 = 0 then segments.dropLast else segments

/-- A collection starts like the paths that belong to it. -/
theorem collectionOf_cons (s : String) (segments : List String) :
    ∃ rest, collectionOf (s :: segments) = s :: rest := by
  unfold collectionOf
  split
  · cases segments with
    | nil => contradiction
    | cons t segments => exact ⟨_, List.dropLast_cons_of_ne_nil (List.cons_ne_nil t segments)⟩
  · exact ⟨segments, rfl⟩

theorem collectionOf_ne_nil {segments : List String} (hne : segments ≠ []) :
    collectionOf segments ≠ [] := by
  obtain ⟨s, segments, rfl⟩ := List.exists_cons_of_ne_nil hne
  obtain ⟨rest, hrest⟩ := collectionOf_cons s segments
  rw [hrest]
  exact List.cons_ne_nil s rest

theorem alternates_collectionOf {segments : List String} (h : alternates false segments = true) :
    alternates false (collectionOf segments) = true := by
  unfold collectionOf
  split
  · exact alternates_dropLast h
  · exact h

namespace Call

/-- The segments of a path with the values of a call: those of the collection with the ids of
containing resources, and the id for a method on one resource. -/
def filled (c : Call) (segments : List String) : List String :=
  fillIn (collectionOf segments) c.parents ++ if c.method.isSingle then [c.id.getD ""] else []

/-- A path with the values of a call in it. -/
def fill (c : Call) (path : String) : String := "/" ++ Text.join "/" (c.filled (pathSegments path))

/-- The values of a call come behind a literal, so no slash is before them. -/
theorem dropStartChar_filled (c : Call) {segments : List String} (hplain : Plain segments)
    (hne : segments ≠ []) (hturn : alternates false segments = true) :
    Text.dropStartChar '/' (Text.join "/" (c.filled segments)) =
      Text.join "/" (c.filled segments) := by
  obtain ⟨s, segments, rfl⟩ := List.exists_cons_of_ne_nil hne
  obtain ⟨hliteral, -⟩ := alternates_false_cons hturn
  obtain ⟨rest, hrest⟩ := collectionOf_cons s segments
  obtain ⟨hs, hslash⟩ := hplain s List.mem_cons_self
  rw [filled, hrest, fillIn, hliteral, Option.isSome_none, if_neg Bool.false_ne_true,
    List.cons_append]
  exact Text.dropStartChar_of_head? (head?_join hs hslash _)

end Call

namespace Document

/-- The first path that contributes to a name, and what it contributes. -/
def firstFound? (doc : Document) (start name : String) : Option (String × Contribution) :=
  doc.paths.findSome? fun entry =>
    ((doc.contribution? start entry).filter (·.singular == name)).map (entry.1, ·)

variable {doc : Document} {given : Option String} {start : String} {g : ResourceGraph}
  {r : Resource} {path : String} {found : Contribution}

/-- What is found first is the first of the contributions. -/
theorem contributionsTo_of_firstFound {name : String}
    (h : doc.firstFound? start name = some (path, found)) :
    (∃ item, doc.contribution? start (path, item) = some found) ∧
      ∃ rest, doc.contributionsTo start name doc.paths = found :: rest := by
  unfold firstFound? at h
  unfold contributionsTo
  revert h
  induction doc.paths with
  | nil =>
    intro h
    cases h
  | cons entry paths ih =>
    intro h
    rw [List.findSome?_cons] at h
    cases hc : doc.contribution? start entry with
    | none =>
      rw [hc] at h
      rw [List.filterMap_cons_none hc]
      exact ih h
    | some c =>
      rw [hc, Option.filter_some] at h
      rw [List.filterMap_cons_some hc, List.filter_cons]
      cases hname : c.singular == name with
      | false =>
        rw [hname] at h
        rw [if_neg Bool.false_ne_true]
        exact ih h
      | true =>
        rw [hname] at h
        cases h
        rw [if_pos rfl]
        exact ⟨⟨entry.2, hc⟩, _, rfl⟩

/-- **A resource that is not declared keeps the collection of the path that it is first found
on.** -/
theorem collectionSegments_of_firstFound (h : doc.resources given start = .ok g)
    (hr : r ∈ g.resources) (hm : r.methods ≠ {}) (hbare : r.schema.declared = none)
    (hfound : doc.firstFound? start r.singular = some (path, found))
    (hfoundBare : found.schema.declared = none) :
    ∃ segments kind, classify? (surveyedPath start path) = some (segments, kind) ∧
      r.collectionSegments = collectionOf segments := by
  obtain ⟨⟨item, hc⟩, rest, hcs⟩ := contributionsTo_of_firstFound hfound
  obtain ⟨segments, kind, hclassify, hpattern⟩ := pattern_of_contribution hc
  refine ⟨segments, kind, hclassify, ?_⟩
  have hkept : r.pattern = found.pattern := by
    obtain ⟨hkept, -⟩ := keptPattern_of_methods h hr hm
    rw [hcs] at hkept
    cases hkept with
    | declared hd _ => exact absurd (Schema.declaredPattern_of_undeclared hbare) hd
    | first _ hp => exact hp
    | second _ _ _ _ hd _ _ => exact absurd hbare hd
  obtain ⟨-, -, -, hkind⟩ := of_classify hclassify
  rw [hfoundBare, Option.isNone_none, Bool.and_true, hkind] at hpattern
  rw [Resource.collectionSegments, hkept, hpattern, collectionOf]
  by_cases heven : segments.length % 2 = 0
  · rw [if_pos heven, if_pos (beq_iff_eq.2 heven)]
    rfl
  · rw [if_neg heven, if_neg (mt beq_iff_eq.1 heven), if_pos (by rfl), List.dropLast_concat]

/-- **Where requests go under a prefix.**  Let a document declare the URL of a server, let no other
one be given, and let a resource that is not declared be first found on a path.  The request for a
standard method goes to the server and the prefix, and behind them to what is left of the path with
the values of the call.

So it goes to the server and the path if the path has the prefix before one of its slashes.  A path
without the prefix is kept, and yet the request has the prefix before it. -/
theorem address_of_firstFound {url : String} {c : Call} {request : Request}
    (h : doc.resources given start = .ok g) (hgiven : given.filter (· != "") = none)
    (hurl : doc.declaredServerUrl? = some url) (hr : r ∈ g.resources)
    (hbare : r.schema.declared = none)
    (hfound : doc.firstFound? start r.singular = some (path, found))
    (hfoundBare : found.schema.declared = none) (hrequest : r.request c = .ok request)
    (hm : ∀ name, c.method ≠ .custom name) :
    g.serverUrl = url ++ start ∧
    request.address g.serverUrl = Text.dropEndChar '/' (url ++ start) ++
      c.fill (surveyedPath start path) ++ r.queryText c ∧
    (∀ rest, path = start ++ "/" ++ rest → (url ++ start).toList.getLast? ≠ some '/' →
      request.address g.serverUrl = url ++ start ++ c.fill ("/" ++ rest) ++ r.queryText c) ∧
    (Text.stripStart start path = none →
      request.address g.serverUrl =
        Text.dropEndChar '/' (url ++ start) ++ c.fill path ++ r.queryText c) := by
  have hserver : g.serverUrl = url ++ start := by
    obtain ⟨-, -, -, -, hserver, -⟩ := Survey.resources_ok_iff.1 h
    unfold Survey.serverUrl at hserver
    rw [hgiven, hurl] at hserver
    exact (Except.ok.inj hserver).symm
  have haddress : request.address g.serverUrl = Text.dropEndChar '/' (url ++ start) ++
      c.fill (surveyedPath start path) ++ r.queryText c := by
    obtain ⟨segments, kind, hclassify, hcollection⟩ := collectionSegments_of_firstFound h hr
      (Resource.methods_ne_empty_of_request hrequest hm) hbare hfound hfoundBare
    obtain ⟨hplain, hne, hturn, -⟩ := of_classify hclassify
    have hpath : request.path = Text.join "/" (c.filled segments) := by
      rw [Call.filled, ← hcollection]
      exact Resource.path_of_standard (hcollection ▸ collectionOf_ne_nil hne)
        (hcollection ▸ alternates_collectionOf hturn) hrequest (Method.suffix_of_standard hm)
    rw [Resource.address_of_request hrequest, hserver, hpath,
      c.dropStartChar_filled hplain hne hturn, Call.fill, pathSegments_of_classify hclassify]
    simp only [String.append_assoc]
  refine ⟨hserver, haddress, ?_, ?_⟩
  · rintro rest rfl hlast
    have hrest : surveyedPath start (start ++ "/" ++ rest) = "/" ++ rest := by
      rw [surveyedPath, String.append_assoc, Text.stripStart_append, Option.getD_some]
    rw [haddress, Text.dropEndChar_of_getLast? hlast, hrest]
  · intro hwithout
    rw [haddress, surveyedPath, hwithout, Option.getD_none]

/-- A document with books below a version, and with authors that are not. -/
def versionedBooks : Document where
  openapi := some "3.1.0"
  servers := [{ url := "http://localhost" }]
  paths := [
    ("/v1/books/{book}", {
      get := some { responses := answering (.refTo "#/components/schemas/Book") } }),
    ("/authors/{author}", {
      get := some { responses := answering (.refTo "#/components/schemas/Author") } })]
  components := [("Book", .typed "object"), ("Author", .typed "object")]

/-- The call that gets a resource that no other contains. -/
def getting (resource id : String) : Call where
  resource := resource
  method := .get
  id := some id

/-- With the version as prefix, a book is got where the document has it. -/
theorem versionedBooks_address : ∃ g r request, versionedBooks.resources none "/v1" = .ok g ∧
    r ∈ g.resources ∧ r.request (getting "book" "emma") = .ok request ∧
    request.address g.serverUrl = "http://localhost" ++ "/v1/books/emma" := by
  obtain ⟨g, hg, hfacts⟩ := exists_ok_of_map_toOption
    (f := fun g : ResourceGraph => g.resources[0]?.map fun r =>
      (r.schema.declared, r.singular, (r.request (getting "book" "emma")).toOption))
    (show (versionedBooks.resources none "/v1").toOption.map _ =
      some (some (none, "book", some ⟨"GET", "books/emma", none, none⟩)) by decide +kernel)
  obtain ⟨r, hr, hfacts⟩ := Option.map_eq_some_iff.1 hfacts
  obtain ⟨hbare, hfacts⟩ := Prod.mk.inj hfacts
  obtain ⟨hname, hrequest⟩ := Prod.mk.inj hfacts
  have hrequest := toOption_eq_some_iff.1 hrequest
  obtain ⟨⟨path, found⟩, hfound, hpath⟩ : ∃ first,
      versionedBooks.firstFound? "/v1" "book" = some first ∧
        (first.1, first.2.schema.declared) = ("/v1/books/{book}", none) :=
    Option.map_eq_some_iff.1 (by decide +kernel)
  obtain ⟨rfl, hfoundBare⟩ := Prod.mk.inj hpath
  have hurl : versionedBooks.declaredServerUrl? = some "http://localhost" := rfl
  obtain ⟨-, -, haddress, -⟩ := address_of_firstFound hg rfl hurl (List.mem_of_getElem? hr) hbare
    (hname ▸ hfound) hfoundBare hrequest (fun _ => nofun)
  have hfilled : "http://localhost" ++ "/v1" ++
      (getting "book" "emma").fill ("/" ++ "books/{book}") ++ "" =
        "http://localhost" ++ "/v1/books/emma" := by decide +kernel
  refine ⟨g, r, _, hg, List.mem_of_getElem? hr, hrequest, ?_⟩
  rw [haddress "books/{book}" rfl (by decide), Resource.queryText_of_single rfl, hfilled]

/-- An author is got below the version, where the document has no authors. -/
theorem versionedBooks_astray : ∃ g r request, versionedBooks.resources none "/v1" = .ok g ∧
    r ∈ g.resources ∧ r.request (getting "author" "austen") = .ok request ∧
    versionedBooks.declaredServerUrl? = some "http://localhost" ∧ r.schema.declared = none ∧
    (versionedBooks.firstFound? "/v1" r.singular).map Prod.fst = some "/authors/{author}" ∧
    request.address g.serverUrl = "http://localhost/v1/authors/austen" ∧
    request.address g.serverUrl ≠
      "http://localhost" ++ (getting "author" "austen").fill "/authors/{author}" := by
  obtain ⟨g, hg, hfacts⟩ := exists_ok_of_map_toOption
    (f := fun g : ResourceGraph => (g.serverUrl, g.resources[1]?.map fun r =>
      (r.schema.declared, r.singular, (r.request (getting "author" "austen")).toOption)))
    (show (versionedBooks.resources none "/v1").toOption.map _ =
      some ("http://localhost/v1",
        some (none, "author", some ⟨"GET", "authors/austen", none, none⟩)) by decide +kernel)
  obtain ⟨hserver, hfacts⟩ := Prod.mk.inj hfacts
  obtain ⟨r, hr, hfacts⟩ := Option.map_eq_some_iff.1 hfacts
  obtain ⟨hbare, hfacts⟩ := Prod.mk.inj hfacts
  obtain ⟨hname, hrequest⟩ := Prod.mk.inj hfacts
  refine ⟨g, r, _, hg, List.mem_of_getElem? hr, toOption_eq_some_iff.1 hrequest, rfl, hbare, ?_,
    ?_, ?_⟩
  · rw [hname]
    decide +kernel
  · rw [hserver]
    decide +kernel
  · rw [hserver]
    decide +kernel

end Document
end ResourceCli
