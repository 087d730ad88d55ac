import ResourceCli.Proofs.Survey.Customs
import ResourceCli.Proofs.Survey.Kept

/-!
# Which named methods find their resource

A path with a method name behind the path of one resource is kept under the pattern of that path
until all resources are known, and then its method goes to the first resource of the pattern.  The
patterns are compared as texts, and a resource keeps only one of the patterns that it is met under.
So the method is found again exactly if some resource kept the pattern of the path
(`Document.hasCustom_iff`), and which pattern is kept depends on the order of the paths.

It does not if all that gives a resource its pattern agrees on it (`Document.Settles`).  That is so
if the schemas that describe the resource declare the pattern, and also if they declare nothing and
every path that contributes to the resource is met under the same pattern.
-/

namespace ResourceCli

/-- A resource of a pattern has a method of a name. -/
def ResourceGraph.HasCustom (g : ResourceGraph) (pattern : List String) (name : String) : Prop :=
  ∃ r ∈ g.resources, r.patternPath = Text.join "/" pattern ∧ ∃ m ∈ r.customs, m.name = name

namespace Document

variable {doc : Document} {given : Option String} {start : String} {g : ResourceGraph}

/-! ## The methods that are kept -/

/-- Every path of a document whose resources are found was visited. -/
theorem exists_visit (h : doc.resources given start = .ok g) {entry : String × PathItem}
    (hmem : entry ∈ doc.paths) :
    ∃ s s', Survey.visit doc start entry.1 entry.2 s = .ok PUnit.unit s' := by
  obtain ⟨_, _, hpaths, -⟩ := Survey.resources_ok_iff.1 h
  exact hpaths.exists_step hmem

/-- **A path with a method name declares a method of that name**, if it declares a verb and the
resources are found. -/
theorem exists_customFor (h : doc.resources given start = .ok g) {entry : String × PathItem}
    (hmem : entry ∈ doc.paths) {pattern name : String}
    (hp : splitCustomMethod? (surveyedPath start entry.1) = some (pattern, name))
    (hverbs : entry.2.declaredOperations ≠ []) :
    ∃ m, doc.customFor start pattern entry = some m ∧ m.name = name := by
  obtain ⟨s, s', hv⟩ := exists_visit h hmem
  obtain ⟨notes, hcustom⟩ := Survey.visit_custom hp doc entry.2 s
  obtain ⟨m?, hm, -⟩ := (hcustom _ _).1 hv
  cases m? with
  | some m => exact ⟨m, customFor_eq_some_iff.2 ⟨name, hp, hm⟩, (customMethod_cases hm).1⟩
  | none => exact absurd hm (customMethod_ne_none hverbs)

/-- A method that a path declares for a pattern is among those for the pattern, or another one of
its name. -/
theorem exists_mem_customsFor {entry : String × PathItem} {paths : List (String × PathItem)}
    (hmem : entry ∈ paths) {pattern : String} {m : CustomMethod}
    (hm : doc.customFor start pattern entry = some m) :
    ∃ m' ∈ doc.customsFor start pattern paths, m'.name = m.name :=
  exists_mem_foldl_keep (.inr (List.mem_filterMap.2 ⟨entry, hmem, hm⟩))

/-! ## Finding the resource of a pattern -/

/-- A pattern that some resource has is that of a first one, and its methods go to that one. -/
theorem exists_customs_of_mem_patterns (h : doc.resources given start = .ok g) {pattern : String}
    (hp : pattern ∈ g.patterns) :
    ∃ r ∈ g.resources, r.patternPath = pattern ∧
      r.customs = doc.customsFor start pattern doc.paths := by
  cases hi : g.patterns.findIdx? (· == pattern) with
  | none =>
    rw [List.findIdx?_eq_none_iff] at hi
    exact absurd (beq_self_eq_true pattern) (Bool.eq_false_iff.1 (hi pattern hp))
  | some i =>
    obtain ⟨hlt, hpattern, -⟩ := List.findIdx?_eq_some_iff_getElem.1 hi
    rw [ResourceGraph.patterns, List.length_map] at hlt
    have hr : g.resource? i = some g.resources[i] := List.getElem?_eq_getElem hlt
    have hpath : g.resources[i].patternPath = pattern := by
      have hmap : g.patterns[i]? = some g.resources[i].patternPath := by
        rw [ResourceGraph.patterns, List.getElem?_map, List.getElem?_eq_getElem hlt,
          Option.map_some]
      obtain ⟨_, hget⟩ := List.getElem?_eq_some_iff.1 hmap
      rw [← hget]
      exact beq_iff_eq.1 hpattern
    have hcustoms := resources_customs h hr
    rw [hpath, if_pos hi] at hcustoms
    exact ⟨_, List.getElem_mem hlt, hpath, hcustoms⟩

/-- **A method is found again** exactly if some resource kept the pattern that it is declared
for. -/
theorem hasCustom_iff_mem_patterns (h : doc.resources given start = .ok g)
    {entry : String × PathItem} (hmem : entry ∈ doc.paths) {segments : List String} {name : String}
    (hp : splitCustomMethod? (surveyedPath start entry.1) = some (Text.join "/" segments, name))
    (hverbs : entry.2.declaredOperations ≠ []) :
    g.HasCustom segments name ↔ Text.join "/" segments ∈ g.patterns := by
  constructor
  · rintro ⟨r, hr, hpath, -⟩
    exact List.mem_map.2 ⟨r, hr, hpath⟩
  · intro hpattern
    obtain ⟨r, hr, hpath, hcustoms⟩ := exists_customs_of_mem_patterns h hpattern
    obtain ⟨m, hm, hname⟩ := exists_customFor h hmem hp hverbs
    obtain ⟨m', hm', hname'⟩ := exists_mem_customsFor hmem hm
    exact ⟨r, hr, hpath, m', hcustoms ▸ hm', hname'.trans hname⟩

/-! ## Patterns that the order of the paths does not matter for -/

/-- All that gives the resource of a name its pattern agrees on it: what describes the resource
declares the pattern, or declares none, and then every path that contributes to the name has the
pattern.  And what a path contributes declares a pattern if it declares anything. -/
structure Settles (doc : Document) (start name : String) (pattern : List String) : Prop where
  /-- A schema that describes the resource declares the pattern, or leaves it to the paths. -/
  described : ∀ s, doc.Describes start name s →
    s.declaredPattern = pattern ∨
      s.declaredPattern = [] ∧ ∀ c ∈ doc.contributionsTo start name doc.paths, c.pattern = pattern
  /-- A path with a declared schema contributes a declared pattern. -/
  placed : ∀ c ∈ doc.contributionsTo start name doc.paths,
    c.schema.declared ≠ none → c.schema.declaredPattern ≠ []

/-- A resource keeps a pattern that all agree on. -/
theorem Settles.keeps {name : String} {pattern : List String} (hs : doc.Settles start name pattern)
    (hne : pattern ≠ []) {r : Resource}
    (hkept : KeptPattern (doc.contributionsTo start name doc.paths) r)
    (hdescribed : doc.Describes start name r.schema)
    (hcs : doc.contributionsTo start name doc.paths ≠ []) : r.pattern = pattern := by
  have hagree := hs.described r.schema hdescribed
  cases hkept with
  | declared hd h =>
    rcases hagree with hagree | ⟨hnone, -⟩
    · exact h.trans hagree
    · exact absurd hnone hd
  | first hd h =>
    rcases hagree with hagree | ⟨-, hall⟩
    · exact absurd (hagree.symm.trans hd) hne
    · obtain ⟨c, rest, hc⟩ := List.exists_cons_of_ne_nil hcs
      rw [h, hc]
      exact hall c (hc ▸ List.mem_cons_self)
  | second c rest hc hschema hd hnone h =>
    have hmem : c ∈ doc.contributionsTo start name doc.paths := hc ▸ List.mem_cons_self
    rw [hschema] at hd hnone
    exact absurd hnone (hs.placed c hmem hd)

/-- **What all agree on is kept**, by the resource that some path contributes to. -/
theorem Settles.mem_patterns {name : String} {segments : List String}
    (hs : doc.Settles start name segments) (hne : segments ≠ [])
    (h : doc.resources given start = .ok g) {k : StandardMethod} {entry : String × PathItem}
    (hmem : entry ∈ doc.paths) (hc : doc.Contributes start entry name k) :
    Text.join "/" segments ∈ g.patterns := by
  obtain ⟨i, r, hl, hr, hk⟩ := (hasMethod_iff h).2 ⟨entry, hmem, hc⟩
  have hname : r.singular = name := by
    obtain ⟨q, hq, hname⟩ := (resources_sound h).leads _ (mem_of_lookup_eq_some hl)
    rw [hr, Option.some.injEq] at hq
    rw [hq, hname]
  have hin : r ∈ g.resources := List.mem_of_getElem? hr
  obtain ⟨hkept, hdescribed, hcs⟩ :=
    keptPattern_of_methods h hin ((Methods.ne_empty_iff _).2 ⟨k, hk⟩)
  rw [hname] at hkept hdescribed hcs
  refine List.mem_map.2 ⟨r, hin, ?_⟩
  rw [Resource.patternPath, hs.keeps hne hkept hdescribed hcs]

/-- What a path contributes is not a matter of the other paths. -/
theorem contribution_withPaths (paths : List (String × PathItem)) (entry : String × PathItem) :
    ({ doc with paths := paths } : Document).contribution? start entry =
      doc.contribution? start entry := by
  unfold contribution? contributionOf?
  simp only [scan_withPaths, resolveSchema_withPaths]

variable {paths : List (String × PathItem)} {name : String}

theorem mem_contributionsTo_withPaths (hperm : paths.Perm doc.paths) {c : Contribution} :
    c ∈ ({ doc with paths := paths } : Document).contributionsTo start name paths ↔
      c ∈ doc.contributionsTo start name doc.paths := by
  simp only [mem_contributionsTo, contribution_withPaths, hperm.mem_iff]

/-- The order of the paths does not change what describes a resource. -/
theorem Describes.of_withPaths (hperm : paths.Perm doc.paths) {s : Schema}
    (h : ({ doc with paths := paths } : Document).Describes start name s) :
    doc.Describes start name s := by
  cases h with
  | contributed c hc hs => exact .contributed c ((mem_contributionsTo_withPaths hperm).1 hc) hs
  | component component t hc ht hn =>
    rw [resolveSchema_withPaths] at ht
    exact .component component t hc ht hn

/-- The order of the paths does not change what all agree on. -/
theorem Settles.withPaths {pattern : List String} (hs : doc.Settles start name pattern)
    (hperm : paths.Perm doc.paths) :
    ({ doc with paths := paths } : Document).Settles start name pattern := by
  refine ⟨fun s hd => ?_, fun c hc => hs.placed c ((mem_contributionsTo_withPaths hperm).1 hc)⟩
  refine (hs.described s (hd.of_withPaths hperm)).imp_right fun ⟨hnone, hall⟩ => ⟨hnone, ?_⟩
  exact fun c hc => hall c ((mem_contributionsTo_withPaths hperm).1 hc)

/-- **Which named methods find their resource.**  Let a path that addresses one resource contribute
to it, and let the same path with a colon and a method name behind it declare a verb.  A resource of
the path's pattern has a method of the name if and only if some resource kept that pattern; and if
all that gives the resource its pattern agrees on that of the path, then there is such a resource
whatever the order of the paths. -/
theorem hasCustom_iff (h : doc.resources given start = .ok g) {item custom : String × PathItem}
    {singular : String} {k : StandardMethod} {segments : List String}
    (hitem : item ∈ doc.paths) (hcustom : custom ∈ doc.paths)
    (hc : doc.Contributes start item singular k)
    (hk : classify? (surveyedPath start item.1) = some (segments, .item))
    (hpath : surveyedPath start custom.1 = surveyedPath start item.1 ++ ":" ++ name)
    (hname : name ≠ "") (hslash : '/' ∉ name.toList)
    (hverbs : custom.2.declaredOperations ≠ []) :
    (g.HasCustom segments name ↔ Text.join "/" segments ∈ g.patterns) ∧
    (doc.Settles start singular segments → ∀ paths g', paths.Perm doc.paths →
      ({ doc with paths := paths } : Document).resources given start = .ok g' →
      g'.HasCustom segments name) := by
  obtain ⟨_, ⟨_, _, _, _, _, hbare, -⟩, -⟩ := id hc
  have hp : splitCustomMethod? (surveyedPath start custom.1) =
      some (Text.join "/" segments, name) := by
    rw [hpath]
    exact splitCustomMethod_of_classify hk hbare hname hslash
  refine ⟨hasCustom_iff_mem_patterns h hcustom hp hverbs, fun hs paths g' hperm h' => ?_⟩
  have hcustom' : custom ∈ ({ doc with paths := paths } : Document).paths :=
    hperm.mem_iff.2 hcustom
  refine (hasCustom_iff_mem_patterns h' hcustom' hp hverbs).2 ?_
  exact (hs.withPaths hperm).mem_patterns (of_classify hk).2.1 h' (hperm.mem_iff.2 hitem)
    ((contributes_withPaths paths).2 hc)

theorem shelves_settle :
    shelves.Settles "" "book" ["shelves", "{shelf}", "books", "{book}"] := by
  have hdeclared : ∀ c ∈ shelves.contributionsTo "" "book" shelves.paths,
      c.schema.declaredPattern = ["shelves", "{shelf}", "books", "{book}"] := by decide +kernel
  refine ⟨fun s hs => ?_, fun c hc _ => ?_⟩
  · cases hs with
    | contributed c hc hs => exact .inl (hs ▸ hdeclared c hc)
    | component component t hc ht hn =>
      have hmem : (component, t) ∈ shelves.components := mem_of_lookup_eq_some hc
      rcases List.mem_cons.1 hmem with he | hmem
      · cases he
        cases ht
        exact .inl (by decide +kernel)
      · cases List.mem_singleton.1 hmem
        cases ht
        exact absurd hn (by decide +kernel)
  · rw [hdeclared c hc]
    exact List.cons_ne_nil _ _

/-- What a path contributes can be computed. -/
theorem contributes_of_contribution {entry : String × PathItem} {k : StandardMethod}
    (h : (doc.contribution? start entry).map (fun c => (c.singular, c.methods.has k)) =
      some (name, true)) : doc.Contributes start entry name k := by
  obtain ⟨c, hc, he⟩ := Option.map_eq_some_iff.1 h
  obtain ⟨hname, hk⟩ := Prod.mk.inj he
  exact ⟨c.methods, offers_iff.2 ⟨c, hc, hname, rfl⟩, hk⟩

/-- On the document with shelves of books, lending is a method of books, whatever the order of the
paths. -/
theorem shelves_lend : (∃ g, shelves.resources none "" = .ok g ∧
      g.HasCustom ["shelves", "{shelf}", "books", "{book}"] "lend") ∧
    ∀ paths g, paths.Perm shelves.paths →
      ({ shelves with paths := paths } : Document).resources none "" = .ok g →
      g.HasCustom ["shelves", "{shelf}", "books", "{book}"] "lend" := by
  obtain ⟨g, hg, -⟩ := exists_ok_of_map_toOption (f := fun _ => true)
    (show (shelves.resources none "").toOption.map _ = some true by decide +kernel)
  have hlend : ∀ paths g', paths.Perm shelves.paths →
      ({ shelves with paths := paths } : Document).resources none "" = .ok g' →
      g'.HasCustom ["shelves", "{shelf}", "books", "{book}"] "lend" :=
    (hasCustom_iff hg List.mem_cons_self (List.mem_cons_of_mem _ List.mem_cons_self)
      (show shelves.Contributes "" _ "book" .get from
        contributes_of_contribution (by decide +kernel))
      (by decide +kernel) (by decide +kernel) (by decide) (by decide) (by decide +kernel)).2
      shelves_settle
  exact ⟨⟨g, hg, hlend _ g (List.Perm.refl _) hg⟩, hlend⟩

/-- A document with books that can be listed, got and lent. -/
def lentBooks : Document where
  openapi := some "3.1.0"
  servers := [{ url := "http://localhost" }]
  paths := [
    ("/books", {
      get := some { responses := answering { Schema.typed "object" with
        properties := [("results", { Schema.typed "array" with
          items := some (.refTo "#/components/schemas/Book") })] } } }),
    ("/books/{book_id}", {
      get := some { responses := answering (.refTo "#/components/schemas/Book") } }),
    ("/books/{book_id}:lend", { post := some {} })]
  components := [("Book", .typed "object")]

/-- Books can be got by the path that lending is behind, and yet no resource has a method for
lending; in the opposite order of the paths, books have it. -/
theorem lentBooks_lost :
    (∃ item ∈ lentBooks.paths, lentBooks.Contributes "" item "book" .get ∧
      classify? item.1 = some (["books", "{book_id}"], .item) ∧
      ∃ custom ∈ lentBooks.paths, custom.1 = item.1 ++ ":" ++ "lend" ∧
        custom.2.declaredOperations ≠ []) ∧
    (∃ g, lentBooks.resources none "" = .ok g ∧
      ∀ r ∈ g.resources, ∀ m ∈ r.customs, m.name ≠ "lend") ∧
    ∃ g, ({ lentBooks with paths := lentBooks.paths.reverse } : Document).resources none "" =
        .ok g ∧
      g.HasCustom ["books", "{book_id}"] "lend" := by
  refine ⟨⟨_, List.mem_cons_of_mem _ List.mem_cons_self,
    contributes_of_contribution (by decide +kernel), by decide +kernel, _,
    List.mem_cons_of_mem _ (List.mem_cons_of_mem _ List.mem_cons_self), by decide +kernel,
    by decide +kernel⟩, ?_, ?_⟩
  · obtain ⟨g, hg, hfacts⟩ := exists_ok_of_map_toOption
      (f := fun g : ResourceGraph => (g.resources.flatMap Resource.customs).map CustomMethod.name)
      (show (lentBooks.resources none "").toOption.map _ = some [] by decide +kernel)
    refine ⟨g, hg, fun r hr m hm _ => ?_⟩
    rw [List.map_eq_nil_iff, List.flatMap_eq_nil_iff] at hfacts
    rw [hfacts r hr] at hm
    cases hm
  · obtain ⟨g, hg, hfacts⟩ := exists_ok_of_map_toOption
      (f := fun g : ResourceGraph => g.resources.map fun r =>
        (r.patternPath, r.customs.map CustomMethod.name))
      (show (({ lentBooks with paths := lentBooks.paths.reverse } : Document).resources
          none "").toOption.map _ = some [("books/{book_id}", ["lend"])] by decide +kernel)
    refine ⟨g, hg, ?_⟩
    have hfirst := List.mem_map.1 (hfacts ▸ List.mem_singleton.2 rfl)
    obtain ⟨r, hr, he⟩ := hfirst
    obtain ⟨hpath, hcustoms⟩ := Prod.mk.inj he
    obtain ⟨m, hm, hname⟩ := List.mem_map.1 (hcustoms ▸ List.mem_singleton.2 rfl)
    exact ⟨r, hr, hpath.trans (by decide +kernel), m, hm, hname⟩

end Document
end ResourceCli
