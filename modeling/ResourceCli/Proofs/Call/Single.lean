import ResourceCli.Proofs.Call.Request
import ResourceCli.Proofs.Resource.Path

/-!
# Methods on one resource

Getting, changing and deleting, and a method with a name, are asked of one resource of a collection;
listing and creating are asked of the collection.  The two kinds of methods should never meet at one
path, not even where slashes at the end of a path do not count: otherwise a resource is meant to be
deleted, and the collection is.

What keeps them apart is the id.  The ids of containing resources are checked not to be empty, but
the id of the resource itself is only checked to be there.  `Resource.single_addressesOne_iff` says
which ids keep a call apart from the collection: those that are not empty, and are not made of
slashes alone unless the name of a method follows.  `Resource.delete_empty` is the call that is not
kept apart.
-/

namespace ResourceCli

/-- A path addresses one resource of a collection.  `suffix` is what a method puts behind the id. -/
structure AddressesOne (collection suffix path : String) : Prop where
  /-- An id that is not empty follows the path of the collection. -/
  shaped : ∃ id, id ≠ "" ∧ path = collection ++ "/" ++ id ++ suffix
  /-- Without slashes at the end it is another path than that of the collection. -/
  apart : Text.dropEndChar '/' path ≠ Text.dropEndChar '/' collection

/-- The id can be read off a path if everything around it is known. -/
theorem id_inj {collection suffix id id' : String}
    (h : collection ++ "/" ++ id ++ suffix = collection ++ "/" ++ id' ++ suffix) : id = id' := by
  have hchars := congrArg String.toList h
  simp only [String.toList_append] at hchars
  exact String.toList_inj.1 (List.append_cancel_left (List.append_cancel_right hchars))

theorem addressesOne_iff {collection suffix id : String} :
    AddressesOne collection suffix (collection ++ "/" ++ id ++ suffix) ↔
      id ≠ "" ∧ ∃ ch ∈ (id ++ suffix).toList, ch ≠ '/' := by
  have htail : collection ++ "/" ++ id ++ suffix = collection ++ ("/" ++ (id ++ suffix)) := by
    simp only [String.append_assoc]
  have hdropped : Text.dropEndChar '/' (collection ++ "/" ++ id ++ suffix) =
      Text.dropEndChar '/' collection ↔ ∀ ch ∈ (id ++ suffix).toList, ch = '/' := by
    rw [htail, Text.dropEndChar_append_eq_iff, String.toList_append]
    constructor
    · intro h ch hch
      exact h ch (List.mem_append_right _ hch)
    · intro h ch hch
      rcases List.mem_append.1 hch with hch | hch
      · exact List.mem_singleton.1 hch
      · exact h ch hch
  constructor
  · rintro ⟨⟨id', hid', hpath⟩, hapart⟩
    refine ⟨id_inj hpath ▸ hid', ?_⟩
    by_contra hall
    push Not at hall
    exact hapart (hdropped.2 hall)
  · rintro ⟨hid, ch, hch, hne⟩
    exact ⟨⟨id, hid, rfl⟩, fun h => hne (hdropped.1 h ch hch)⟩

namespace Resource

variable {r : Resource} {c : Call} {request : Request}

/-- **When a method on one resource addresses one resource.**  An accepted call has an id, which
follows the path of the collection.  The path addresses one resource exactly if the id is not empty,
and is not made of slashes alone unless the name of a method follows.  The path of the collection is
the one that listing and creating use with the same containing resources. -/
theorem single_addressesOne_iff (h : r.request c = .ok request)
    (hm : c.method.isSingle = true) :
    ∃ id, c.id = some id ∧
      request.path = r.collectionPath c.parents ++ "/" ++ id ++ c.method.suffix ∧
      (AddressesOne (r.collectionPath c.parents) c.method.suffix request.path ↔
        id ≠ "" ∧ ∃ ch ∈ (id ++ c.method.suffix).toList, ch ≠ '/') ∧
      ∀ c' request', c'.method.isSingle = false → c'.parents = c.parents →
        r.request c' = .ok request' → request'.path = r.collectionPath c.parents := by
  obtain ⟨id, hid, hpath⟩ := path_of_single h hm
  refine ⟨id, hid, hpath, ?_, ?_⟩
  · rw [hpath]
    exact addressesOne_iff
  · intro c' request' hm' hparents h'
    rw [← hparents]
    exact path_of_collective h' hm'

/-- The books of a publisher. -/
def publishedBook : Resource where
  singular := "book"
  plural := "books"
  pattern := ["publishers", "{publisher}", "books", "{book}"]
  methods := { get := true, list := true, delete := true }

/-- The call that deletes a book of a publisher. -/
def deletion (id : String) : Call where
  resource := "book"
  parents := ["acme"]
  method := .delete
  id := some id

theorem deletion_accepted (id : String) : publishedBook.request (deletion id) =
    .ok ⟨"DELETE", "publishers/acme/books" ++ "/" ++ id, none, none⟩ := rfl

/-- Deleting a book with an id addresses that book. -/
theorem delete_book : ∃ request, publishedBook.request (deletion "emma") = .ok request ∧
    AddressesOne "publishers/acme/books" "" request.path := by
  obtain ⟨id, hid, -, haddresses, -⟩ :=
    single_addressesOne_iff (deletion_accepted "emma") rfl
  have hemma : id = "emma" := (Option.some.inj hid).symm
  refine ⟨_, deletion_accepted "emma", haddresses.2 ?_⟩
  rw [hemma]
  exact ⟨by decide, 'e', by decide, by decide⟩

/-- Deleting a book without an id is accepted, and addresses all books of the publisher. -/
theorem delete_empty : IsItemPattern publishedBook.pattern ∧
    ∃ request, publishedBook.request (deletion "") = .ok request ∧
      request.path = "publishers/acme/books/" ∧
      ¬ AddressesOne (publishedBook.collectionPath (deletion "").parents)
        (deletion "").method.suffix request.path := by
  refine ⟨by decide, _, deletion_accepted "", rfl, ?_⟩
  intro h
  have hbooks : AddressesOne "publishers/acme/books" ""
      ("publishers/acme/books" ++ "/" ++ "" ++ "") := h
  exact (addressesOne_iff.1 hbooks).1 rfl

end Resource
end ResourceCli
