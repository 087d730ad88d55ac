import ResourceCli.Proofs.Survey.Customs
import ResourceCli.Resource.Annotated
import Mathlib.Data.List.Pairwise
import Mathlib.Data.List.Perm.Subperm

/-!
# The components and paths of a written document

A graph is written resource by resource, in the order of names.  For a graph that can be written
(`ResourceGraph.Writable`) no two things are written to the same place, so that nothing is
overwritten and everything is found again.

* `ordered_singular`, `mem_ordered`: the resources in order are all the resources, each once.
* `component_annotated`: the component of a resource is its schema with its declaration.
* `annotatedPaths_eq`: the paths are those of the resources one after the other.
-/

namespace ResourceCli

/-- What is asked of a graph that is to be written. -/
structure ResourceGraph.Writable (g : ResourceGraph) : Prop where
  /-- No two resources have the same name. -/
  distinct : (g.resources.map Resource.singular).Nodup
  /-- No name has a slash. -/
  slashless : ∀ r ∈ g.resources, '/' ∉ r.singular.toList
  /-- The pattern of a resource with methods addresses one resource. -/
  shaped : ∀ r ∈ g.resources, r.methods ≠ {} ∨ r.customs ≠ [] → IsItemPattern r.pattern
  /-- No two patterns are the same without their own placeholders. -/
  apart : g.resources.Pairwise fun r q =>
    r.pattern ≠ [] → q.pattern ≠ [] → r.collectionSegments ≠ q.collectionSegments
  /-- It is known where requests are sent. -/
  located : g.serverUrl ≠ ""

namespace ResourceGraph

variable {g : ResourceGraph}

theorem writable_iff : g.Writable ↔
    (g.resources.map Resource.singular).Nodup ∧
    (∀ r ∈ g.resources, '/' ∉ r.singular.toList) ∧
    (∀ r ∈ g.resources, r.methods ≠ {} ∨ r.customs ≠ [] → IsItemPattern r.pattern) ∧
    (g.resources.Pairwise fun r q =>
      r.pattern ≠ [] → q.pattern ≠ [] → r.collectionSegments ≠ q.collectionSegments) ∧
    g.serverUrl ≠ "" := by
  constructor
  · intro h
    exact ⟨h.distinct, h.slashless, h.shaped, h.apart, h.located⟩
  · rintro ⟨hd, hn, hs, ha, hl⟩
    exact ⟨hd, hn, hs, ha, hl⟩

instance (g : ResourceGraph) : Decidable g.Writable :=
  decidable_of_iff _ writable_iff.symm

theorem eq_of_singular (hw : g.Writable) {r q : Resource} (hr : r ∈ g.resources)
    (hq : q ∈ g.resources) (hn : r.singular = q.singular) : r = q :=
  List.inj_on_of_nodup_map hw.distinct hr hq hn

/-- Resources whose patterns differ in their placeholders only are the same. -/
theorem eq_of_collectionSegments (hw : g.Writable) {r q : Resource} (hr : r ∈ g.resources)
    (hq : q ∈ g.resources) (hr' : r.pattern ≠ []) (hq' : q.pattern ≠ [])
    (h : r.collectionSegments = q.collectionSegments) : r = q := by
  by_contra hne
  have hsymm : Std.Symm fun r q : Resource =>
      r.pattern ≠ [] → q.pattern ≠ [] → r.collectionSegments ≠ q.collectionSegments :=
    ⟨fun _ _ h hq hr => Ne.symm (h hr hq)⟩
  exact hw.apart.forall hr hq hne hr' hq' h

/-- A resource is where the index leads its name to. -/
theorem Sound.idOf_singular (hs : g.Sound) (hw : g.Writable) {i : Nat} {r : Resource}
    (hr : g.resource? i = some r) : g.idOf? r.singular = some i := by
  obtain ⟨j, hj⟩ := hs.known r (List.mem_of_getElem? hr)
  obtain ⟨q, hq, hn⟩ := hs.leads _ (mem_of_lookup_eq_some hj)
  have hi : (g.resources.map Resource.singular)[i]? = some r.singular := by
    rw [List.getElem?_map, show g.resources[i]? = some r from hr, Option.map_some]
  have hj' : (g.resources.map Resource.singular)[j]? = some r.singular := by
    rw [List.getElem?_map, show g.resources[j]? = some q from hq, Option.map_some, hn]
  rw [hj, (List.getElem?_inj (List.getElem?_eq_some_iff.1 hi).1 hw.distinct).1
    (hi.trans hj'.symm)]

/-! ## The resources in order -/

/-- The resources in order have the names of the index. -/
theorem Sound.ordered_singular (hs : g.Sound) : g.ordered.map Resource.singular = keys g.index := by
  have hall : ∀ l : List (String × Nat), (∀ e ∈ l, ∃ r, g.resource? e.2 = some r ∧
      r.singular = e.1) →
      (l.filterMap fun e => g.resource? e.2).map Resource.singular = keys l := by
    intro l hl
    induction l with
    | nil => rfl
    | cons e l ih =>
      obtain ⟨name, id⟩ := e
      obtain ⟨r, hr, hn⟩ := hl (name, id) List.mem_cons_self
      have hstep : (((name, id) :: l).filterMap fun e => g.resource? e.2) =
          r :: l.filterMap fun e => g.resource? e.2 := List.filterMap_cons_some hr
      rw [hstep, List.map_cons, hn, ih fun e he => hl e (List.mem_cons_of_mem _ he)]
      rfl
  exact hall g.index hs.leads

theorem Sound.nodup_ordered (hs : g.Sound) : (g.ordered.map Resource.singular).Nodup := by
  rw [hs.ordered_singular]
  exact hs.sorted.imp fun {_ _} h => String.ne_of_lt h

theorem Sound.mem_ordered (hs : g.Sound) (hw : g.Writable) {r : Resource} :
    r ∈ g.ordered ↔ r ∈ g.resources := by
  unfold ordered
  rw [List.mem_filterMap]
  constructor
  · rintro ⟨e, -, he⟩
    exact List.mem_of_getElem? he
  · intro hr
    obtain ⟨i, hi⟩ := List.mem_iff_getElem?.1 hr
    exact ⟨(r.singular, i), mem_of_lookup_eq_some (hs.idOf_singular hw hi), hi⟩

/-- Of two resources in order, neither has the other one's pattern without its placeholder. -/
theorem Sound.apart_ordered (hs : g.Sound) (hw : g.Writable) :
    g.ordered.Pairwise fun r q =>
      r.pattern ≠ [] → q.pattern ≠ [] → r.collectionSegments ≠ q.collectionSegments := by
  have hne : g.ordered.Pairwise fun r q => r ≠ q := List.Nodup.of_map _ hs.nodup_ordered
  refine hne.imp_of_mem fun {r q} hr hq hrq hr' hq' heq => hrq ?_
  exact eq_of_collectionSegments hw ((hs.mem_ordered hw).1 hr) ((hs.mem_ordered hw).1 hq)
    hr' hq' heq

end ResourceGraph

namespace Annotated

/-! ## Entries put into a table -/

section Tables

variable {α : Type} {entries table : List (String × α)}

theorem insertAll_cons (e : String × α) (entries table : List (String × α)) :
    insertAll (e :: entries) table = insertAll entries (Tree.insert e.1 e.2 table) := rfl

theorem lookup_insertAll (hn : (keys entries).Nodup) (table : List (String × α)) (k : String) :
    (insertAll entries table).lookup k = (entries.lookup k).or (table.lookup k) := by
  induction entries generalizing table with
  | nil => rfl
  | cons e entries ih =>
    obtain ⟨name, a⟩ := e
    rw [keys_cons, List.nodup_cons] at hn
    rw [insertAll_cons, ih hn.2, lookup_insert]
    by_cases hk : k = name
    · rw [if_pos hk, hk, List.lookup_cons_self, lookup_eq_none_iff.2 hn.1, Option.none_or,
        Option.some_or]
    · rw [if_neg hk, lookup_cons_of_ne hk]

/-- New names go to the end, in order. -/
theorem insertAll_of_nodup (h : (keys (table ++ entries)).Nodup) :
    insertAll entries table = table ++ entries := by
  induction entries generalizing table with
  | nil => exact (List.append_nil _).symm
  | cons e entries ih =>
    have hnew : e.1 ∉ keys table := by
      intro hmem
      rw [keys_append, List.nodup_append] at h
      exact h.2.2 _ hmem _ List.mem_cons_self rfl
    rw [List.append_cons] at h
    rw [insertAll_cons, insert_of_notMem hnew, ih h, List.append_assoc, List.singleton_append]

end Tables

/-! ## Places of operations -/

/-- The text of a path: its segments, and a method name after a colon if there is one. -/
def pathText : List String × Option String → String
  | (segments, none) => "/" ++ Text.join "/" segments
  | (segments, some name) => "/" ++ Text.join "/" segments ++ ":" ++ name

/-- Segments and a method name that can be read off the path that is made of them. -/
structure Legible (place : List String × Option String) : Prop where
  /-- The segments are plain. -/
  plain : Plain place.1
  /-- There are segments. -/
  ne_nil : place.1 ≠ []
  /-- No segment has a colon. -/
  colonless : ∀ s ∈ place.1, ':' ∉ s.toList
  /-- A method name is not empty. -/
  named : ∀ name ∈ place.2, name ≠ ""
  /-- A method name has no slash. -/
  slashless : ∀ name ∈ place.2, '/' ∉ name.toList

theorem splitCustomMethod_pathText {place : List String × Option String} (h : Legible place) :
    splitCustomMethod? (pathText place) =
      place.2.map fun name => (Text.join "/" place.1, name) := by
  obtain ⟨segments, name?⟩ := place
  cases name? with
  | none => exact splitCustomMethod_path h.plain h.ne_nil h.colonless
  | some name =>
    exact splitCustomMethod_path_colon h.plain h.ne_nil h.colonless (h.named name rfl)
      (h.slashless name rfl)

/-- A path determines the place that it is the text of. -/
theorem pathText_inj {place place' : List String × Option String} (h : Legible place)
    (h' : Legible place') (he : pathText place = pathText place') : place = place' := by
  have hsplit : place.2.map (fun name => (Text.join "/" place.1, name)) =
      place'.2.map fun name => (Text.join "/" place'.1, name) := by
    rw [← splitCustomMethod_pathText h, ← splitCustomMethod_pathText h', he]
  obtain ⟨segments, name?⟩ := place
  obtain ⟨segments', name?'⟩ := place'
  cases name? with
  | none =>
    cases name?' with
    | none =>
      have hjoin : Text.join "/" segments = Text.join "/" segments' := by
        have hchars := congrArg String.toList he
        rw [pathText, pathText, String.toList_append, String.toList_append] at hchars
        exact String.toList_inj.1 (List.append_cancel_left hchars)
      have hsegments : segments = segments' := h.plain.join_inj h'.plain hjoin
      rw [hsegments]
    | some name => cases hsplit
  | some name =>
    cases name?' with
    | none => cases hsplit
    | some name' =>
      have hpair := Option.some.inj hsplit
      have hsegments : segments = segments' := h.plain.join_inj h'.plain (congrArg Prod.fst hpair)
      have hname : name = name' := congrArg Prod.snd hpair
      rw [hsegments, hname]

/-- The places of the operations of a resource. -/
def placesOf (r : Resource) : List (List String × Option String) :=
  (if r.methods.list || r.methods.create.isSome then [(r.collectionSegments, none)] else []) ++
  (if r.methods.get || r.methods.update || r.methods.delete then [(r.pattern, none)] else []) ++
  r.customs.map fun m => (r.pattern, some m.name)

theorem keys_pathsOf (r : Resource) : keys (pathsOf r) = (placesOf r).map pathText := by
  unfold pathsOf placesOf
  rw [keys_append, keys_append, List.map_append, List.map_append, List.map_map]
  congr 1
  · congr 1
    · split <;> rfl
    · split <;> rfl
  · rw [keys, List.map_map]
    rfl

theorem mem_placesOf_iff {r : Resource} {place : List String × Option String} :
    place ∈ placesOf r ↔
      (place = (r.collectionSegments, none) ∧
        (r.methods.list || r.methods.create.isSome) = true) ∨
      (place = (r.pattern, none) ∧
        (r.methods.get || r.methods.update || r.methods.delete) = true) ∨
      ∃ m ∈ r.customs, place = (r.pattern, some m.name) := by
  simp only [placesOf, List.mem_append, or_assoc, List.mem_ite_nil_right, List.mem_singleton,
    List.mem_map, eq_comm (b := place), and_comm]

theorem fst_of_mem_placesOf {r : Resource} {place : List String × Option String}
    (h : place ∈ placesOf r) :
    (r.methods ≠ {} ∨ r.customs ≠ []) ∧
      (place.1 = r.collectionSegments ∧ place.2 = none ∨ place.1 = r.pattern) := by
  rcases mem_placesOf_iff.1 h with ⟨rfl, hm⟩ | ⟨rfl, hm⟩ | ⟨m, hm, rfl⟩
  · refine ⟨.inl ((Methods.ne_empty_iff _).2 ?_), .inl ⟨rfl, rfl⟩⟩
    rw [Bool.or_eq_true] at hm
    exact hm.elim (fun h => ⟨.list, h⟩) fun h => ⟨.create, h⟩
  · refine ⟨.inl ((Methods.ne_empty_iff _).2 ?_), .inr rfl⟩
    rw [Bool.or_eq_true, Bool.or_eq_true] at hm
    exact hm.elim (fun h => h.elim (fun h => ⟨.get, h⟩) fun h => ⟨.update, h⟩)
      fun h => ⟨.delete, h⟩
  · exact ⟨.inr (List.ne_nil_of_mem hm), .inr rfl⟩

end Annotated

namespace ResourceGraph

open Annotated

variable {g : ResourceGraph} {r q : Resource}

theorem Sound.plain (hs : g.Sound) (hw : g.Writable) (hr : r ∈ g.resources) : Plain r.pattern :=
  (hs.wellMade r hr).plain (hw.slashless r hr)

theorem Sound.legible (hs : g.Sound) (hw : g.Writable) (hr : r ∈ g.resources)
    {place : List String × Option String} (h : place ∈ placesOf r) : Legible place := by
  have hplain := hs.plain hw hr
  obtain ⟨hmethods, hplace⟩ := fst_of_mem_placesOf h
  have hitem := hw.shaped r hr hmethods
  have hname : ∀ name ∈ place.2, ∃ m ∈ r.customs, m.name = name := by
    intro name hname
    rcases mem_placesOf_iff.1 h with ⟨rfl, -⟩ | ⟨rfl, -⟩ | ⟨m, hm, rfl⟩
    · cases hname
    · cases hname
    · exact ⟨m, hm, Option.some.inj hname⟩
  refine ⟨?_, ?_, ?_, ?_, ?_⟩
  · rcases hplace with ⟨hp, -⟩ | hp <;> rw [hp]
    · exact hplain.dropLast
    · exact hplain
  · rcases hplace with ⟨hp, -⟩ | hp <;> rw [hp]
    · exact hitem.dropLast_ne_nil
    · exact hitem.ne_nil
  · rcases hplace with ⟨hp, -⟩ | hp <;> rw [hp]
    · exact fun s hs => hitem.colonless s (List.dropLast_subset _ hs)
    · exact hitem.colonless
  · intro name hn
    obtain ⟨m, hm, rfl⟩ := hname name hn
    exact (hs.customs r hr m hm).named
  · intro name hn
    obtain ⟨m, hm, rfl⟩ := hname name hn
    exact (hs.customs r hr m hm).slashless

theorem length_fst_of_mem_placesOf (hw : g.Writable) (hr : r ∈ g.resources)
    {place : List String × Option String} (h : place ∈ placesOf r) :
    place.1 = r.collectionSegments ∧ place.1.length % 2 = 1 ∧ place.2 = none ∨
      place.1 = r.pattern ∧ place.1.length % 2 = 0 := by
  obtain ⟨hmethods, hplace⟩ := fst_of_mem_placesOf h
  have hitem := hw.shaped r hr hmethods
  rcases hplace with ⟨hp, hn⟩ | hp
  · exact .inl ⟨hp, by rw [hp]; exact hitem.length_dropLast, hn⟩
  · exact .inr ⟨hp, by rw [hp]; exact hitem.even⟩

/-- The places of one resource are distinct. -/
theorem Sound.nodup_placesOf (hs : g.Sound) (hw : g.Writable) (hr : r ∈ g.resources) :
    (placesOf r).Nodup := by
  have hcustoms : (r.customs.map fun m => (r.pattern, some m.name)).Nodup := by
    have hmap : (r.customs.map fun m => (r.pattern, some m.name)) =
        (r.customs.map CustomMethod.name).map fun name => (r.pattern, some name) := by
      rw [List.map_map]
      rfl
    rw [hmap]
    refine (hs.named r hr).map fun a b he => ?_
    exact Option.some.inj (congrArg Prod.snd he)
  have hcond : ∀ (b : Bool) (place : List String × Option String),
      (if b then [place] else []).Nodup := by
    intro b place
    cases b with
    | true => exact List.nodup_singleton _
    | false => exact List.nodup_nil
  unfold placesOf
  rw [List.nodup_append, List.nodup_append]
  refine ⟨⟨hcond _ _, hcond _ _, ?_⟩, hcustoms, ?_⟩
  · -- The path of all of a kind is one segment shorter than that of one.
    rintro a ha b hb rfl
    obtain ⟨hm, ha⟩ := List.mem_ite_nil_right.1 ha
    obtain ⟨-, hb⟩ := List.mem_ite_nil_right.1 hb
    rw [List.mem_singleton] at ha hb
    have hsame : r.pattern.dropLast = r.pattern := congrArg Prod.fst (ha.symm.trans hb)
    have hplace : (r.collectionSegments, none) ∈ placesOf r :=
      mem_placesOf_iff.2 (.inl ⟨rfl, hm⟩)
    have hitem := hw.shaped r hr (fst_of_mem_placesOf hplace).1
    have heven := hitem.even
    have hodd := hitem.length_dropLast
    rw [hsame] at hodd
    omega
  · -- Only the places of named methods have a name.
    rintro a ha b hb rfl
    obtain ⟨m, -, rfl⟩ := List.mem_map.1 hb
    simp [List.mem_ite_nil_right] at ha

/-- **No two operations are written to the same place.** -/
theorem Sound.nodup_keys_paths (hs : g.Sound) (hw : g.Writable) :
    (keys (g.ordered.flatMap fun r => if r.pattern.isEmpty then [] else pathsOf r)).Nodup := by
  have hkeys : ∀ r : Resource, keys (if r.pattern.isEmpty then [] else pathsOf r) =
      if r.pattern.isEmpty then [] else (placesOf r).map pathText := by
    intro r
    split
    · rfl
    · exact keys_pathsOf r
  rw [keys, List.map_flatMap, List.nodup_flatMap]
  refine ⟨fun r hr => ?_, (hs.apart_ordered hw).imp_of_mem fun {r q} hr hq hapart => ?_⟩
  · rw [hs.mem_ordered hw] at hr
    show (keys _).Nodup
    rw [hkeys]
    split
    · exact List.nodup_nil
    · exact (hs.nodup_placesOf hw hr).map_on fun a ha b hb he =>
        pathText_inj (hs.legible hw hr ha) (hs.legible hw hr hb) he
  · rw [hs.mem_ordered hw] at hr hq
    show List.Disjoint (keys _) (keys _)
    rw [hkeys, hkeys, List.disjoint_left]
    intro text hr' hq'
    split at hr'
    · cases hr'
    · rename_i hrp
      split at hq'
      · cases hq'
      · rename_i hqp
        rw [List.isEmpty_iff] at hrp hqp
        obtain ⟨place, hplace, rfl⟩ := List.mem_map.1 hr'
        obtain ⟨place', hplace', he⟩ := List.mem_map.1 hq'
        obtain rfl := pathText_inj (hs.legible hw hq hplace') (hs.legible hw hr hplace) he
        have hne := hapart hrp hqp
        rcases length_fst_of_mem_placesOf hw hr hplace with ⟨hp, hl, -⟩ | ⟨hp, hl⟩ <;>
          rcases length_fst_of_mem_placesOf hw hq hplace' with ⟨hp', hl', -⟩ | ⟨hp', hl'⟩
        · exact hne (hp.symm.trans hp')
        · omega
        · omega
        · exact hne (congrArg List.dropLast (hp.symm.trans hp'))

/-- The paths of the written document are those of the resources, one after the other. -/
theorem Sound.annotatedPaths_eq (hs : g.Sound) (hw : g.Writable) :
    g.annotatedPaths =
      g.ordered.flatMap fun r => if r.pattern.isEmpty then [] else pathsOf r := by
  rw [annotatedPaths, insertAll_of_nodup, List.nil_append]
  exact hs.nodup_keys_paths hw

/-! ## Components -/

variable {doc : Document}

/-- The schemas of the resources in order stand under their names. -/
theorem keys_resourceSchemas (g : ResourceGraph) :
    keys (g.ordered.map fun r => (r.singular, resourceSchema g r)) =
      g.ordered.map Resource.singular := by
  rw [keys, List.map_map]
  rfl

theorem Sound.nodup_keys_resourceSchemas (hs : g.Sound) :
    (keys (g.ordered.map fun r => (r.singular, resourceSchema g r))).Nodup := by
  rw [keys_resourceSchemas]
  exact hs.nodup_ordered

/-- The schema of a resource in order takes the place of any other component of its name. -/
theorem Sound.component_of_ordered (hs : g.Sound) (hr : r ∈ g.ordered) :
    (g.annotated doc).component? r.singular = some (resourceSchema g r) := by
  show (g.annotatedComponents doc).lookup r.singular = _
  rw [annotatedComponents, lookup_insertAll hs.nodup_keys_resourceSchemas,
    lookup_of_mem hs.nodup_keys_resourceSchemas, Option.some_or]
  exact List.mem_map.2 ⟨r, hr, rfl⟩

theorem Sound.component_annotated (hs : g.Sound) (hw : g.Writable) (hr : r ∈ g.resources) :
    (g.annotated doc).component? r.singular = some (resourceSchema g r) :=
  hs.component_of_ordered ((hs.mem_ordered hw).2 hr)

/-- There are at least as many components as resources. -/
theorem Sound.length_le_schemas (hs : g.Sound) (hw : g.Writable) (doc : Document) :
    g.resources.length ≤ (g.annotated doc).schemas.length := by
  have hsub : g.resources.map Resource.singular ⊆ keys (g.annotated doc).schemas := by
    intro name hname
    obtain ⟨r, hr, rfl⟩ := List.mem_map.1 hname
    exact mem_keys_of_lookup_eq_some (hs.component_annotated hw hr)
  have hle := (hw.distinct.subperm hsub).length_le
  rw [List.length_map, keys, List.length_map] at hle
  exact hle

end ResourceGraph
end ResourceCli
