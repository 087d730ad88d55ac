import ResourceCli.Proofs.Call.Placeholders
import ResourceCli.Proofs.Call.Single
import ResourceCli.Proofs.Exchange.Sent
import ResourceCli.Proofs.Survey.Completeness
import ResourceCli.Proofs.Url.Extended

/-!
# Where a request for one resource is sent

Getting, changing and deleting ask for one resource.  Its path is the pattern of the resource with a
value in place of each placeholder, and what is sent goes to the URL that is read from the URL of
the server with the path behind it.  It should have one segment for each segment of the pattern,
behind those of the server, which is decoded to the literal or the value that stands there, and no
query.

The values are put into the path as they are.  So a value can end its segment, start a query, or
take the segment before it along.  `Resource.target_extends_iff` says for which values the request
is sent where it should be, whatever the call: those that are confined.  Calls with other values may
be sent to the same place although they ask for different resources
(`Resource.targets_astray`).
-/

namespace ResourceCli

/-! ## Patterns with their values -/

variable {segments values values' : List String}

theorem length_fillIn (segments values : List String) :
    (fillIn segments values).length = segments.length := by
  induction segments generalizing values with
  | nil => rfl
  | cons s segments ih =>
    rw [fillIn]
    split <;> rw [List.length_cons, ih, List.length_cons]

/-- The values can be read off the segments that they are filled into. -/
theorem getD_of_fillIn (h : fillIn segments values = fillIn segments values') :
    ∀ i < (segments.filterMap placeholderName?).length, values.getD i "" = values'.getD i "" := by
  induction segments generalizing values values' with
  | nil => exact fun i hi => absurd hi (Nat.not_lt_zero i)
  | cons s segments ih =>
    rw [fillIn, fillIn] at h
    cases hs : placeholderName? s with
    | none =>
      rw [hs, Option.isSome_none, if_neg Bool.false_ne_true, if_neg Bool.false_ne_true] at h
      rw [List.filterMap_cons_none hs]
      exact ih (List.cons.inj h).2
    | some name =>
      rw [hs, Option.isSome_some, if_pos rfl, if_pos rfl] at h
      obtain ⟨hhead, htail⟩ := List.cons.inj h
      rw [List.filterMap_cons_some hs, List.length_cons]
      intro i hi
      have hfirst : ∀ vs : List String, vs.getD 0 "" = vs.headD "" := fun vs => by
        cases vs <;> rfl
      have hnext : ∀ (vs : List String) i, vs.getD (i + 1) "" = vs.tail.getD i "" := fun vs i => by
        cases vs <;> rfl
      cases i with
      | zero => rw [hfirst, hfirst, hhead]
      | succ i =>
        rw [hnext, hnext]
        exact ih htail i (Nat.lt_of_succ_lt_succ hi)

/-- One more segment is joined behind a slash. -/
theorem join_concat (hne : segments ≠ []) (last : String) :
    Text.join "/" (segments ++ [last]) = Text.join "/" segments ++ "/" ++ last := by
  refine String.toList_injective ((List.cons.injEq '/' _ '/' _).mp ?_).2
  rw [Url.cons_join (List.append_ne_nil_of_left_ne_nil hne _), List.flatMap_append,
    ← Url.cons_join hne, List.flatMap_singleton, String.toList_append, String.toList_append,
    List.append_assoc]
  rfl

namespace Resource

variable {r : Resource} {c : Call} {request : Request}

/-- The segments that a call asks for: the literals of the pattern, and in place of each placeholder
the value that is given for it. -/
def addressed (r : Resource) (c : Call) : List String :=
  fillIn r.collectionSegments c.parents ++ [c.id.getD ""]

theorem length_addressed (hp : IsComplete r.pattern) (c : Call) :
    (r.addressed c).length = r.pattern.length := by
  obtain ⟨-, hne, -⟩ := isComplete_iff.1 hp
  have hpos := List.length_pos_iff.2 hne
  rw [addressed, List.length_append, length_fillIn, collectionSegments, List.length_dropLast,
    List.length_singleton]
  omega

/-- Of a complete pattern something is left without its own placeholder, in turn. -/
theorem collectionSegments_of_isComplete (hp : IsComplete r.pattern) :
    r.collectionSegments ≠ [] ∧ alternates false r.collectionSegments = true := by
  obtain ⟨hturn, hne, heven⟩ := isComplete_iff.1 hp
  have hpos := List.length_pos_iff.2 hne
  refine ⟨?_, alternates_dropLast hturn⟩
  rw [collectionSegments, Ne, ← List.length_eq_zero_iff, List.length_dropLast]
  omega

/-- A method on one resource without a name. -/
theorem isSingle_of_standard (hm : c.method = .get ∨ c.method = .update ∨ c.method = .delete) :
    c.method.isSingle = true ∧ c.method.suffix = "" := by
  rcases hm with hm | hm | hm <;> rw [hm] <;> exact ⟨rfl, rfl⟩

/-- What follows the path in the address of a request: the id that the call chooses, if it chooses
one. -/
def queryText (r : Resource) (c : Call) : String :=
  if r.choosesId c then "?id=" ++ Url.encodeValue (c.id.getD "") else ""

theorem queryText_of_single (hm : c.method.isSingle = true) : r.queryText c = "" := by
  rw [queryText, choosesId_of_single hm, if_neg Bool.false_ne_true]

/-- The address of a request, by its path. -/
theorem address_of_request (h : r.request c = .ok request) (server : String) :
    request.address server = Text.dropEndChar '/' server ++ "/" ++
      Text.dropStartChar '/' request.path ++ r.queryText c := by
  have hquery : request.query =
      if r.choosesId c then some ("id=" ++ Url.encodeValue (c.id.getD "")) else none := by
    cases hsingle : c.method.isSingle with
    | true =>
      obtain ⟨-, -, -, hquery⟩ := request_of_single h hsingle
      rw [hquery, choosesId_of_single hsingle, if_neg Bool.false_ne_true]
    | false => exact (request_of_collective h hsingle).2
  rw [Request.address, hquery, queryText]
  cases r.choosesId c with
  | false => simp only [Bool.false_eq_true, if_false]
  | true =>
    have hne : ("id=" ++ Url.encodeValue (c.id.getD "") == "") = false := by
      rw [beq_eq_false_iff_ne, Ne, String.append_eq_empty_iff]
      exact fun hempty => absurd hempty.1 (by decide)
    have hmark : "?id=" = "?" ++ "id=" := by decide
    simp only [if_true, hne, Bool.false_eq_true, if_false]
    simp only [hmark, String.append_assoc]

/-- The path of a request for a method without a name: the segments of the collection with the ids
of containing resources, and the id for a method on one resource. -/
theorem path_of_standard (hne : r.collectionSegments ≠ [])
    (hturn : alternates false r.collectionSegments = true) (h : r.request c = .ok request)
    (hsuffix : c.method.suffix = "") :
    request.path = Text.join "/" (fillIn r.collectionSegments c.parents ++
      if c.method.isSingle then [c.id.getD ""] else []) := by
  have hpath : r.collectionPath c.parents =
      Text.join "/" (fillIn r.collectionSegments c.parents) := by
    rw [collectionPath_eq, alternated_eq_fillIn hturn]
  have hfilled : fillIn r.collectionSegments c.parents ≠ [] := by
    rwa [Ne, ← List.length_eq_zero_iff, length_fillIn, List.length_eq_zero_iff]
  cases hsingle : c.method.isSingle with
  | true =>
    obtain ⟨id, hid, hrequest⟩ := path_of_single h hsingle
    rw [hrequest, hsuffix, String.append_empty, hpath, if_pos rfl, hid, Option.getD_some,
      join_concat hfilled]
  | false =>
    rw [path_of_collective h hsingle, hpath, if_neg Bool.false_ne_true, List.append_nil]

/-- The address of a request for one resource: behind the server stand the segments that the call
asks for. -/
theorem address_of_single (hp : IsComplete r.pattern) (h : r.request c = .ok request)
    (hm : c.method = .get ∨ c.method = .update ∨ c.method = .delete) (server : String) :
    request.address server = Text.dropEndChar '/' server ++ "/" ++
      Text.dropStartChar '/' (Text.join "/" (r.addressed c)) := by
  obtain ⟨hsingle, hsuffix⟩ := isSingle_of_standard hm
  obtain ⟨hne, hturn⟩ := collectionSegments_of_isComplete hp
  have hjoin : request.path = Text.join "/" (r.addressed c) := by
    rw [path_of_standard hne hturn h hsuffix, hsingle, if_pos rfl]
    rfl
  rw [address_of_request h, queryText_of_single hsingle, hjoin, String.append_empty]

/-- The values of a call can be told from the segments that it asks for. -/
theorem values_of_addressed (hp : IsComplete r.pattern) {c' : Call}
    (h : r.addressed c = r.addressed c') :
    c.id.getD "" = c'.id.getD "" ∧
      ∀ i < r.parentFlags.length, c.parents.getD i "" = c'.parents.getD i "" := by
  obtain ⟨-, hturn⟩ := collectionSegments_of_isComplete hp
  have hparts := List.append_inj_left' h rfl
  refine ⟨List.singleton_inj.1 (List.append_inj_right' h rfl), fun i hi => ?_⟩
  refine getD_of_fillIn hparts i ?_
  rwa [parentFlags, List.length_map, parentPlaceholders_eq, placedNames_eq_filterMap hturn] at hi

/-- **Where a request for one resource is sent.**  Let the pattern of a resource be complete, and
let the URL of a server, with one slash at its end, be a web address without query and fragment.
Whatever values an accepted call gives, a URL is read from the address of its request, and nothing
is sent anywhere else.  The URL extends that of the server by the segments that the call asks for,
without a query, exactly if these are confined.  Two such calls of a method that are sent to the
same place give the same values. -/
theorem target_extends_iff {server : String} {base : Url} (hp : IsComplete r.pattern)
    (h : r.request c = .ok request)
    (hm : c.method = .get ∨ c.method = .update ∨ c.method = .delete)
    (hbase : Url.read (Text.dropEndChar '/' server ++ "/") = some base)
    (hscheme : base.scheme = "http" ∨ base.scheme = "https") (hq : base.query = none)
    (hf : base.fragment = none) :
    (r.addressed c).length = r.pattern.length ∧
    (∃ u, Url.read (request.address server) = some u ∧
      (∀ s, (exchange s server request).SendsOnly fun o =>
        o.verb = request.verb ∧ o.url = u.withoutCredentials.text ∧ o.body = request.body) ∧
      (base.Extends (r.addressed c) u ↔ Url.Confined (r.addressed c))) ∧
    ∀ c' request' u u', c'.method = c.method → r.request c' = .ok request' →
      Url.read (request.address server) = some u → Url.read (request'.address server) = some u' →
      Url.Confined (r.addressed c) → Url.Confined (r.addressed c') → u.target = u'.target →
      c.id = c'.id ∧ ∀ i < r.parentFlags.length, c.parents.getD i "" = c'.parents.getD i "" := by
  have hlength : ∀ c, 2 ≤ (r.addressed c).length := fun c => by
    obtain ⟨-, hne, heven⟩ := isComplete_iff.1 hp
    have hpos := List.length_pos_iff.2 hne
    rw [length_addressed hp]
    omega
  have hnonempty : ∀ c, r.addressed c ≠ [] := fun c =>
    List.append_ne_nil_of_right_ne_nil _ (List.cons_ne_nil _ _)
  obtain ⟨before, -, hread⟩ := Url.exists_read hbase hscheme hq hf
  refine ⟨length_addressed hp c, ?_, ?_⟩
  · obtain ⟨u, hu, hiff, -⟩ := hread (r.addressed c) (hlength c)
    rw [← address_of_single hp h hm] at hu
    exact ⟨u, hu, fun s => exchange_sendsOnly hu s, hiff⟩
  · intro c' request' u u' hm' h' hu hu' hc hc' htarget
    rw [address_of_single hp h hm] at hu
    rw [address_of_single hp h' (hm' ▸ hm)] at hu'
    obtain ⟨v, hv, -, hext⟩ := hread (r.addressed c) (hlength c)
    obtain ⟨v', hv', -, hext'⟩ := hread (r.addressed c') (hlength c')
    obtain rfl := Option.some.inj (hu.symm.trans hv)
    obtain rfl := Option.some.inj (hu'.symm.trans hv')
    rw [hext hc, hext' hc'] at htarget
    have hsame := Url.eq_of_target (hnonempty c) (hnonempty c') hc hc' base before htarget
    obtain ⟨hid, hparents⟩ := values_of_addressed hp hsame
    obtain ⟨id, hid₁, -⟩ := request_of_single h (isSingle_of_standard hm).1
    obtain ⟨id', hid₂, -⟩ := request_of_single h' (isSingle_of_standard (hm' ▸ hm)).1
    rw [hid₁, hid₂, Option.getD_some, Option.getD_some] at hid
    exact ⟨by rw [hid₁, hid₂, hid], hparents⟩

/-- The URL of a server with a path. -/
def shopUrl : Url where
  scheme := "http"
  authority := some { host := "localhost", port := some 8080 }
  path := .segments ["shop", ""]

theorem read_shop :
    Url.read (Text.dropEndChar '/' "http://localhost:8080/shop/" ++ "/") = some shopUrl := by
  decide +kernel

/-- Deleting a book is sent below the path of the server, even if its id has a blank and a percent
sign in it. -/
theorem target_blank : ∃ request u,
    publishedBook.request (deletion "50% off") = .ok request ∧
    Url.read (request.address "http://localhost:8080/shop/") = some u ∧
    shopUrl.Extends ["publishers", "acme", "books", "50% off"] u := by
  obtain ⟨-, ⟨u, hu, -, hext⟩, -⟩ := target_extends_iff (by decide) (deletion_accepted "50% off")
    (.inr (.inr rfl)) read_shop (.inl rfl) rfl rfl
  have hvalues : publishedBook.addressed (deletion "50% off") =
      ["publishers", "acme", "books", "50% off"] := by decide +kernel
  have hconfined : Url.Confined ["publishers", "acme", "books", "50% off"] := by decide +kernel
  rw [hvalues] at hext
  exact ⟨_, u, deletion_accepted _, hu, hext.2 hconfined⟩

/-- The URL of a book in the shop. -/
def shopBookUrl : Url :=
  { shopUrl with path := .segments ["shop", "publishers", "acme", "books", "x"] }

/-- Deleting a book whose id has a question mark is sent with a query; and two books with different
ids are deleted at the same place. -/
theorem targets_astray : IsComplete publishedBook.pattern ∧
    (∃ request u, publishedBook.request (deletion "x?y") = .ok request ∧
      Url.read (request.address "http://localhost:8080/shop/") = some u ∧
      u.query = some "y" ∧ ¬ shopUrl.Extends ["publishers", "acme", "books", "x?y"] u) ∧
    ∃ request request' u u', publishedBook.request (deletion "x") = .ok request ∧
      publishedBook.request (deletion "x#y") = .ok request' ∧
      Url.read (request.address "http://localhost:8080/shop/") = some u ∧
      Url.read (request'.address "http://localhost:8080/shop/") = some u' ∧
      u.target = u'.target := by
  have hquery : Url.read ("http://localhost:8080/shop/" ++ "publishers/acme/books/x?y") =
      some { shopBookUrl with query := some "y" } := by decide +kernel
  have hplain : Url.read ("http://localhost:8080/shop/" ++ "publishers/acme/books/x") =
      some shopBookUrl := by decide +kernel
  have hmarked : Url.read ("http://localhost:8080/shop/" ++ "publishers/acme/books/x#y") =
      some { shopBookUrl with fragment := some "y" } := by decide +kernel
  refine ⟨by decide, ⟨_, _, deletion_accepted _, hquery, rfl, fun h => ?_⟩,
    _, _, _, _, deletion_accepted _, deletion_accepted _, hplain, hmarked, rfl⟩
  cases h.query

end Resource
end ResourceCli
