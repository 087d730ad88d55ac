import ResourceCli.Proofs.Survey.Kept

/-!
# Complete patterns

A pattern is complete if its segments are literals and placeholders in turn, a literal first, and if
it ends with the placeholder for the resource's own id.  Everything that is made of a pattern later
on, the flags for ids, the path of a request, the paths of a converted document, takes it to be
complete.

The patterns that paths give are not all complete.  A path that addresses all resources of a kind
ends with a literal.  If its schema declares nothing, the placeholder is put behind it; if the
schema is declared, it is not, since then the declaration is expected to say the pattern.  But a
declaration need not say one.  So there are two ways for a resource with methods to have an
incomplete pattern (`IncompletePattern`), both with a schema that declares none: no second path
contributes to it, and it has no pattern at all; or the path that gives it one addresses all
resources of a kind, and its schema is declared.  `Document.isComplete_pattern_iff` says that there
are no other ways, as long as what is declared is complete.
-/

namespace ResourceCli

/-- Literals and placeholders in turn, a literal first, and a placeholder for the resource's own id
last. -/
structure IsComplete (pattern : List String) : Prop where
  /-- Literals and placeholders come in turn, a literal first. -/
  inTurn : alternates false pattern = true
  /-- The last segment is a placeholder. -/
  own : ∃ s ∈ pattern.getLast?, (placeholderName? s).isSome = true

/-- Segments in turn are a complete pattern exactly if their number is even, and not zero. -/
theorem isComplete_iff {pattern : List String} :
    IsComplete pattern ↔
      alternates false pattern = true ∧ pattern ≠ [] ∧ pattern.length % 2 = 0 := by
  constructor
  · rintro ⟨hturn, last, hlast, hsome⟩
    refine ⟨hturn, ?_, ?_⟩
    · rintro rfl
      cases hlast
    · rw [isSome_getLast hturn hlast] at hsome
      have hodd : (pattern.length % 2 == 1) = false := by simpa using hsome
      have := beq_eq_false_iff_ne.1 hodd
      omega
  · rintro ⟨hturn, hne, heven⟩
    have hlast := List.getLast?_eq_some_getLast hne
    refine ⟨hturn, _, hlast, ?_⟩
    rw [isSome_getLast hturn hlast, heven]
    rfl

instance (pattern : List String) : Decidable (IsComplete pattern) :=
  decidable_of_iff _ isComplete_iff.symm

/-- A placeholder behind segments in turn stays in turn if the segments are so many that one is
next. -/
theorem alternates_concat_placeholder {wrapped : Bool} {segments : List String} (name : String)
    (h : alternates wrapped segments = true)
    (hlength : (segments.length + wrapped.toNat) % 2 = 1) :
    alternates wrapped (segments ++ [placeholder name]) = true := by
  refine alternates_iff.2 fun i hi => ?_
  rw [List.length_append, List.length_singleton] at hi
  rcases Nat.lt_succ_iff_lt_or_eq.1 hi with hi | rfl
  · rw [List.getElem_append_left hi]
    exact alternates_iff.1 h i hi
  · rw [List.getElem_concat_length rfl]
    exact iff_of_true ⟨name, rfl⟩ hlength

/-- **Which paths give a complete pattern**: those that address one resource, and those whose
schema declares nothing. -/
theorem Document.isComplete_contribution_iff {doc : Document} {start : String}
    {entry : String × PathItem} {c : Contribution} {segments : List String} {kind : PathKind}
    (h : doc.contribution? start entry = some c)
    (hk : classify? (surveyedPath start entry.1) = some (segments, kind)) :
    (IsComplete c.pattern ↔ kind = .item ∨ c.schema.declared = none) ∧
      (c.schema.declared ≠ none → c.pattern = segments) := by
  obtain ⟨segments', kind', hk', hpattern⟩ := pattern_of_contribution h
  rw [hk, Option.some.injEq, Prod.mk.injEq] at hk'
  obtain ⟨rfl, rfl⟩ := hk'
  obtain ⟨-, hne, hturn, hkind⟩ := of_classify hk
  have hsegments : c.schema.declared ≠ none → c.pattern = segments := by
    intro hd
    rw [hpattern, if_neg]
    intro hboth
    exact hd (Option.isNone_iff_eq_none.1 (Bool.and_eq_true_iff.1 hboth).2)
  refine ⟨?_, hsegments⟩
  rw [isComplete_iff]
  cases kind with
  | item =>
    rw [hpattern]
    exact iff_of_true ⟨hturn, hne, (kind_eq_iff.1 hkind).1 rfl⟩ (.inl rfl)
  | collection =>
    have hodd : segments.length % 2 = 1 := by
      have heven : segments.length % 2 ≠ 0 := fun he => nomatch (kind_eq_iff.1 hkind).2 he
      omega
    by_cases hd : c.schema.declared = none
    · rw [hpattern, if_pos (by rw [hd]; rfl)]
      refine iff_of_true ⟨alternates_concat_placeholder _ hturn hodd, ?_, ?_⟩ (.inr hd)
      · exact List.append_ne_nil_of_left_ne_nil hne _
      · rw [List.length_append, List.length_singleton]
        omega
    · rw [hsegments hd]
      refine iff_of_false (fun hc => ?_) (fun hor => hor.elim (fun hk => nomatch hk) hd)
      rw [hodd] at hc
      cases hc.2.2

/-- Why the pattern of a resource with methods is not complete. -/
inductive IncompletePattern (doc : Document) (start : String) (r : Resource) : Prop
  /-- It is declared without a pattern, and only one path contributes to it. -/
  | unplaced (c : Contribution) (hd : r.schema.declared ≠ none)
      (hnone : r.schema.declaredPattern = [])
      (honly : doc.contributionsTo start r.singular doc.paths = [c]) (h : r.pattern = [])
  /-- It declares no pattern, and a path gives it one that addresses all resources of a kind and has
  a declared schema. -/
  | collection (entry : String × PathItem) (c : Contribution) (segments : List String)
      (hmem : entry ∈ doc.paths) (hc : doc.contribution? start entry = some c)
      (hn : c.singular = r.singular) (hd : c.schema.declared ≠ none)
      (hk : classify? (Document.surveyedPath start entry.1) = some (segments, .collection))
      (hnone : r.schema.declaredPattern = []) (h : r.pattern = segments)

namespace Document

variable {doc : Document} {given : Option String} {start : String} {g : ResourceGraph}
  {r : Resource}

/-- A pattern that a path gives is complete, or it is one of those that are not. -/
theorem isComplete_or_incomplete {c : Contribution}
    (hc : c ∈ doc.contributionsTo start r.singular doc.paths)
    (hnone : r.schema.declaredPattern = []) (h : r.pattern = c.pattern) :
    IsComplete r.pattern ∨ IncompletePattern doc start r ∧ c.schema.declared ≠ none := by
  obtain ⟨⟨entry, hmem, hc⟩, hn⟩ := mem_contributionsTo.1 hc
  obtain ⟨segments, kind, hk, -⟩ := pattern_of_contribution hc
  obtain ⟨hiff, hsegments⟩ := isComplete_contribution_iff hc hk
  by_cases hcomplete : kind = .item ∨ c.schema.declared = none
  · exact .inl (h ▸ hiff.2 hcomplete)
  · rw [not_or] at hcomplete
    obtain ⟨hkind, hd⟩ := hcomplete
    cases kind with
    | item => exact absurd rfl hkind
    | collection =>
      exact .inr ⟨.collection entry c segments hmem hc hn hd hk hnone (h.trans (hsegments hd)), hd⟩

/-- An incomplete pattern is not complete. -/
theorem not_isComplete_of_incomplete (h : IncompletePattern doc start r) :
    ¬ IsComplete r.pattern := by
  rw [isComplete_iff]
  cases h with
  | unplaced c hd hnone honly h => exact fun hc => hc.2.1 h
  | collection entry c segments hmem hc hn hd hk hnone h =>
    intro hcomplete
    rw [h] at hcomplete
    have hkind := (of_classify hk).2.2.2
    rw [hcomplete.2.2] at hkind
    cases hkind

/-- A pattern that a schema declares is complete if the text that it is declared by is. -/
theorem isComplete_declaredPattern {s : Schema} (hne : s.declaredPattern ≠ [])
    (hd : ∀ d text, s.declared = some d → d.patterns.head? = some text →
      IsComplete (splitPattern text)) : IsComplete s.declaredPattern := by
  cases hs : s.declared with
  | none => exact absurd (Schema.declaredPattern_of_undeclared hs) hne
  | some d =>
    rw [Schema.declaredPattern_of_declared hs] at hne ⊢
    cases ht : d.patterns.head? with
    | none =>
      rw [ht] at hne
      exact absurd rfl hne
    | some text => exact hd d text hs ht

/-- Whatever pattern is kept, it is complete, or it is incomplete, none is declared, and some path
contributes a declared schema. -/
theorem isComplete_or_incomplete_of_kept
    (hkept : KeptPattern (doc.contributionsTo start r.singular doc.paths) r)
    (hne : doc.contributionsTo start r.singular doc.paths ≠ [])
    (hd : ∀ d text, r.schema.declared = some d → d.patterns.head? = some text →
      IsComplete (splitPattern text)) :
    IsComplete r.pattern ∨ IncompletePattern doc start r ∧ r.schema.declaredPattern = [] ∧
      ∃ c ∈ doc.contributionsTo start r.singular doc.paths, c.schema.declared ≠ none := by
  cases hkept with
  | declared hown hpattern => exact .inl (hpattern ▸ isComplete_declaredPattern hown hd)
  | first hnone hpattern =>
    obtain ⟨c, rest, hcs⟩ := List.exists_cons_of_ne_nil hne
    have hc : c ∈ doc.contributionsTo start r.singular doc.paths := by
      rw [hcs]
      exact List.mem_cons_self
    rw [hcs] at hpattern
    exact (isComplete_or_incomplete hc hnone hpattern).imp_right
      fun ⟨hi, hcd⟩ => ⟨hi, hnone, c, hc, hcd⟩
  | second c rest hcs hs hdeclared hnone hpattern =>
    have hc : c ∈ doc.contributionsTo start r.singular doc.paths := by
      rw [hcs]
      exact List.mem_cons_self
    cases rest with
    | nil => exact .inr ⟨.unplaced c hdeclared hnone hcs hpattern, hnone, c, hc, hs ▸ hdeclared⟩
    | cons c' rest =>
      have hc' : c' ∈ doc.contributionsTo start r.singular doc.paths := by
        rw [hcs]
        exact List.mem_cons_of_mem _ List.mem_cons_self
      exact (isComplete_or_incomplete hc' hnone hpattern).imp_right
        fun ⟨hi, hcd⟩ => ⟨hi, hnone, c', hc', hcd⟩

/-- **Which resources have a complete pattern.**  Let a resource have methods, and let the pattern
that it declares be complete if it declares one.  Its pattern is complete but for two cases, which
`IncompletePattern` lists; in particular if it declares a pattern, and if nothing that paths
contribute to it is declared. -/
theorem isComplete_pattern_iff (h : doc.resources given start = .ok g) (hr : r ∈ g.resources)
    (hm : r.methods ≠ {})
    (hd : ∀ d text, r.schema.declared = some d → d.patterns.head? = some text →
      IsComplete (splitPattern text)) :
    (IsComplete r.pattern ↔ ¬ IncompletePattern doc start r) ∧
    (r.schema.declaredPattern ≠ [] → IsComplete r.pattern) ∧
    ((∀ c ∈ doc.contributionsTo start r.singular doc.paths, c.schema.declared = none) →
      IsComplete r.pattern) := by
  obtain ⟨hkept, -, hne⟩ := keptPattern_of_methods h hr hm
  have hcases := isComplete_or_incomplete_of_kept hkept hne hd
  refine ⟨⟨fun hc hi => not_isComplete_of_incomplete hi hc, fun hi => ?_⟩, fun hown => ?_,
    fun hall => ?_⟩
  · exact hcases.resolve_right fun hbad => hi hbad.1
  · exact hcases.resolve_right fun hbad => hown hbad.2.1
  · refine hcases.resolve_right ?_
    rintro ⟨-, -, c, hc, hcd⟩
    exact hcd (hall c hc)

/-- On the document with shelves of books, the pattern of shelves is complete, although shelves are
first met as what contains a book. -/
theorem shelves_isComplete : ∃ g r, shelves.resources none "" = .ok g ∧ r ∈ g.resources ∧
    r.singular = "shelf" ∧ r.methods ≠ {} ∧ r.schema.declared = none ∧ IsComplete r.pattern := by
  obtain ⟨g, hg, hfacts⟩ := exists_ok_of_map_toOption
    (f := fun g : ResourceGraph => g.resources[0]?.map fun r =>
      (r.singular, r.methods.create.isSome, r.schema.declared))
    (show (shelves.resources none "").toOption.map _ = some (some ("shelf", true, none)) by
      decide +kernel)
  obtain ⟨r, hr, hfacts⟩ := Option.map_eq_some_iff.1 hfacts
  obtain ⟨hname, hfacts⟩ := Prod.mk.inj hfacts
  obtain ⟨hcreate, hd⟩ := Prod.mk.inj hfacts
  have hm : r.methods ≠ {} := (Methods.ne_empty_iff _).2 ⟨.create, hcreate⟩
  have hmem : r ∈ g.resources := List.mem_of_getElem? hr
  have hcomplete := (isComplete_pattern_iff hg hmem hm (fun d text hs => by
    rw [hd] at hs
    cases hs)).2.2
  refine ⟨g, r, hg, hmem, hname, hm, hd, hcomplete fun c hc => ?_⟩
  rw [hname] at hc
  have hall : ∀ c ∈ shelves.contributionsTo "" "shelf" shelves.paths,
      c.schema.declared = none := by decide +kernel
  exact hall c hc

/-- A document with books that are declared without a pattern. -/
def unplacedBooks : Document where
  openapi := some "3.1.0"
  servers := [{ url := "http://localhost" }]
  paths := [("/books/{book}", {
    get := some { responses := answering (.refTo "#/components/schemas/Book") } })]
  components := [("Book", { Schema.typed "object" with declared := some { singular := "book" } })]

/-- A book can be got in the document with books that are declared without a pattern, and yet books
have no pattern. -/
theorem unplacedBooks_incomplete : ∃ g r, unplacedBooks.resources none "" = .ok g ∧
    r ∈ g.resources ∧ r.singular = "book" ∧ r.methods.get = true ∧ r.pattern = [] ∧
    ¬ IsComplete r.pattern := by
  obtain ⟨g, hg, hfacts⟩ := exists_ok_of_map_toOption
    (f := fun g : ResourceGraph => g.resources[0]?.map fun r =>
      (r.singular, r.methods.get, r.pattern))
    (show (unplacedBooks.resources none "").toOption.map _ = some (some ("book", true, [])) by
      decide +kernel)
  obtain ⟨r, hr, hfacts⟩ := Option.map_eq_some_iff.1 hfacts
  obtain ⟨hname, hfacts⟩ := Prod.mk.inj hfacts
  obtain ⟨hget, hpattern⟩ := Prod.mk.inj hfacts
  refine ⟨g, r, hg, List.mem_of_getElem? hr, hname, hget, hpattern, ?_⟩
  rw [hpattern]
  decide

end Document
end ResourceCli
