import ResourceCli.Proofs.Annotated.Fixpoint
import ResourceCli.Proofs.Call.Target
import ResourceCli.Proofs.Survey.Placed

/-!
# Resources that are written to one path

A document that declares its resources has one entry for each path, and what is written to a path
later takes the place of what was there.  So a resource keeps its operations only if no other one is
written to its paths (`Clash`); it does not matter which of the two comes later, since either way
one of them misses an operation or finds that of the other one.

* `Document.Keeps`: the operations at the paths of a resource are its own.
* `cases_of_lookup_paths`: whatever stands at a path was written there for a resource.
* `keeps_iff`: all resources keep their operations exactly if no two of them clash.
-/

namespace ResourceCli

open Annotated

/-! ## The operations of a resource -/

/-- What stands at the path of all resources of a kind is what is to be there: the operations that
list and create them, if these are offered, and they answer with such resources. -/
structure Document.KeepsCollection (d : Document) (r : Resource) (item : Option PathItem) :
    Prop where
  /-- There is an operation to list exactly if that is offered. -/
  list : (item.bind PathItem.get).isSome = r.methods.list
  /-- There is an operation to create exactly if that is offered. -/
  create : (item.bind PathItem.post).isSome = r.methods.create.isSome
  /-- What is listed is these resources. -/
  listed : ∀ op ∈ item.bind PathItem.get,
    (d.successSchema? op).bind Document.listedItems? = some (componentRef r.singular)
  /-- What is created is such a resource. -/
  created : ∀ op ∈ item.bind PathItem.post,
    d.successSchema? op = some (componentRef r.singular)

/-- What stands at the path of one resource is what is to be there: the operations that get, change
and delete it, if these are offered, and the first two answer with such a resource. -/
structure Document.KeepsItem (d : Document) (r : Resource) (item : Option PathItem) : Prop where
  /-- There is an operation to get it exactly if that is offered. -/
  get : (item.bind PathItem.get).isSome = r.methods.get
  /-- There is an operation to change it exactly if that is offered. -/
  update : (item.bind PathItem.patch).isSome = r.methods.update
  /-- There is an operation to delete it exactly if that is offered. -/
  delete : (item.bind PathItem.delete).isSome = r.methods.delete
  /-- What is got is such a resource. -/
  got : ∀ op ∈ item.bind PathItem.get, d.successSchema? op = some (componentRef r.singular)
  /-- What is changed is such a resource. -/
  updated : ∀ op ∈ item.bind PathItem.patch, d.successSchema? op = some (componentRef r.singular)

/-- The operations at the paths of a resource are its own. -/
structure Document.Keeps (d : Document) (r : Resource) : Prop where
  /-- At the path of all such resources. -/
  collection : d.KeepsCollection r (d.paths.lookup (collectionPath r))
  /-- At the path of one such resource. -/
  item : d.KeepsItem r (d.paths.lookup (itemPath r))

/-- Two resources are written to one path, and one of them misses what the other one has there. -/
inductive Clash (r q : Resource) : Prop
  /-- Both have the same path for all resources of their kind. -/
  | collections (h : collectionPath r = collectionPath q)
      (hr : r.methods.list = true ∨ r.methods.create.isSome = true)
  /-- Both have the same path for one resource of their kind. -/
  | items (h : itemPath r = itemPath q)
      (hr : r.methods.get = true ∨ r.methods.update = true ∨
        r.methods.delete = true ∧ q.methods.delete = false)
  /-- The path for all resources of one kind is the path for one of the other. -/
  | itemInCollection (h : collectionPath r = itemPath q)
      (hr : r.methods.list = true ∨ q.methods.get = true ∨
        r.methods.create.isSome = true ∧ (q.methods.update = true ∨ q.methods.delete = true))

namespace Document

variable {d : Document} {r : Resource} {item : Option PathItem}

/-- Where nothing is to be listed or created there need only be no such operation. -/
theorem keepsCollection_of_absent (hl : r.methods.list = false)
    (hc : r.methods.create.isSome = false) (hget : item.bind PathItem.get = none)
    (hpost : item.bind PathItem.post = none) : d.KeepsCollection r item := by
  refine ⟨?_, ?_, fun op h => ?_, fun op h => ?_⟩
  · rw [hget, hl]; rfl
  · rw [hpost, hc]; rfl
  · rw [hget] at h; cases h
  · rw [hpost] at h; cases h

/-- Where nothing is to be got or changed there need only be no such operation. -/
theorem keepsItem_of_absent (hg : r.methods.get = false) (hu : r.methods.update = false)
    (hget : item.bind PathItem.get = none) (hpatch : item.bind PathItem.patch = none)
    (hdelete : (item.bind PathItem.delete).isSome = r.methods.delete) : d.KeepsItem r item := by
  refine ⟨?_, ?_, hdelete, fun op h => ?_, fun op h => ?_⟩
  · rw [hget, hg]; rfl
  · rw [hpatch, hu]; rfl
  · rw [hget] at h; cases h
  · rw [hpatch] at h; cases h

end Document

/-- What is not offered if the path for all resources of one kind is, without a clash, the path for
one of the other. -/
theorem not_clash_itemInCollection {r q : Resource} (h : ¬ Clash r q)
    (hpath : collectionPath r = itemPath q) :
    r.methods.list = false ∧ q.methods.get = false ∧
      (r.methods.create.isSome = false ∨ q.methods.update = false ∧ q.methods.delete = false) := by
  have hnot := fun hr => h (.itemInCollection hpath hr)
  grind

/-- What is not offered if two kinds have, without a clash, the same path for one resource. -/
theorem not_clash_items {r q : Resource} (h : ¬ Clash r q) (h' : ¬ Clash q r)
    (hpath : itemPath r = itemPath q) :
    (r.methods.get = false ∧ r.methods.update = false) ∧
      (q.methods.get = false ∧ q.methods.update = false) ∧
      r.methods.delete = q.methods.delete := by
  have hnot := fun hr => h (.items hpath hr)
  have hnot' := fun hr => h' (.items hpath.symm hr)
  grind

theorem clash_iff {r q : Resource} : Clash r q ↔
    (collectionPath r = collectionPath q ∧
      (r.methods.list = true ∨ r.methods.create.isSome = true)) ∨
    (itemPath r = itemPath q ∧ (r.methods.get = true ∨ r.methods.update = true ∨
      r.methods.delete = true ∧ q.methods.delete = false)) ∨
    (collectionPath r = itemPath q ∧ (r.methods.list = true ∨ q.methods.get = true ∨
      r.methods.create.isSome = true ∧
        (q.methods.update = true ∨ q.methods.delete = true))) := by
  constructor
  · rintro (⟨h, hr⟩ | ⟨h, hr⟩ | ⟨h, hr⟩)
    · exact .inl ⟨h, hr⟩
    · exact .inr (.inl ⟨h, hr⟩)
    · exact .inr (.inr ⟨h, hr⟩)
  · rintro (⟨h, hr⟩ | ⟨h, hr⟩ | ⟨h, hr⟩)
    · exact .collections h hr
    · exact .items h hr
    · exact .itemInCollection h hr

instance (r q : Resource) : Decidable (Clash r q) := decidable_of_iff' _ clash_iff

theorem componentRef_inj {name name' : String} (h : componentRef name = componentRef name') :
    name = name' := by
  have href := congrArg Schema.reference h
  rw [componentRef, componentRef, Schema.reference_refTo, Schema.reference_refTo,
    Option.some.injEq] at href
  exact (String.append_right_inj _).mp href

namespace ResourceGraph

variable {g : ResourceGraph} {doc : Document} {r q : Resource} {path : String} {item : PathItem}

/-! ## What is written for one resource -/

theorem mem_pathsOf_iff : (path, item) ∈ pathsOf r ↔
    (path = collectionPath r ∧ item = collectionItem r ∧
      (r.methods.list = true ∨ r.methods.create.isSome = true)) ∨
    (path = itemPath r ∧ item = resourceItem r ∧
      (r.methods.get = true ∨ r.methods.update = true ∨ r.methods.delete = true)) ∨
    ∃ m ∈ r.customs, path = itemPath r ++ ":" ++ m.name ∧ item = customItem r m := by
  simp only [pathsOf, List.mem_append, or_assoc, List.mem_ite_nil_right, List.mem_singleton,
    Prod.mk.injEq, Bool.or_eq_true, List.mem_map]
  grind

/-- The path of all resources of a kind holds its operations. -/
theorem keepsCollection_collectionItem (g : ResourceGraph) (doc : Document) (r : Resource) :
    (g.annotated doc).KeepsCollection r (some (collectionItem r)) where
  list := by
    show (if r.methods.list then some (listOperation r) else none).isSome = r.methods.list
    cases r.methods.list <;> rfl
  create := Option.isSome_map
  listed op h := by
    have h : op ∈ if r.methods.list then some (listOperation r) else none := h
    split at h
    · cases h
      rw [listOperation, successSchema_operation]
      rfl
    · cases h
  created op h := by
    obtain ⟨create, -, rfl⟩ := Option.map_eq_some_iff.mp h
    rw [createOperation, successSchema_operation]

/-- The path of one resource holds its operations. -/
theorem keepsItem_resourceItem (g : ResourceGraph) (doc : Document) (r : Resource) :
    (g.annotated doc).KeepsItem r (some (resourceItem r)) where
  get := by
    simp only [Option.bind_some, resourceItem]
    cases r.methods.get <;> rfl
  update := by
    simp only [Option.bind_some, resourceItem]
    cases r.methods.update <;> rfl
  delete := by
    simp only [Option.bind_some, resourceItem]
    cases r.methods.delete <;> rfl
  got op h := by
    simp only [Option.bind_some, resourceItem] at h
    split at h
    · cases h
      exact successSchema_operation ..
    · cases h
  updated op h := by
    simp only [Option.bind_some, resourceItem] at h
    split at h
    · cases h
      exact successSchema_operation ..
    · cases h

/-- The two paths of a resource are different. -/
theorem itemPath_ne_collectionPath (hp : r.pattern ≠ []) (hne : ∀ s ∈ r.pattern, s ≠ "") :
    itemPath r ≠ collectionPath r := by
  intro he
  have he : r.patternPath = Text.join "/" r.collectionSegments :=
    (String.append_right_inj _).mp he
  have hlast : r.pattern.getLast hp ≠ "" := hne _ (List.getLast_mem hp)
  rw [Resource.patternPath, ← List.dropLast_append_getLast hp] at he
  by_cases hc : r.pattern.dropLast = []
  · rw [Resource.collectionSegments, hc] at he
    exact hlast (by simpa [Text.join] using he)
  · rw [join_concat hc] at he
    have hlength := congrArg String.length he
    have hslash : "/".length = 1 := rfl
    simp only [Resource.collectionSegments, String.length_append] at hlength
    omega

/-! ## What is written to a path -/

theorem lookup_insertAll_eq_none_iff {α : Type} {entries table : List (String × α)} :
    (insertAll entries table).lookup path = none ↔
      path ∉ keys entries ∧ table.lookup path = none := by
  induction entries generalizing table with
  | nil => simp [insertAll]
  | cons e entries ih =>
    rw [insertAll_cons, ih, lookup_insert, keys_cons, List.mem_cons, not_or]
    split
    · rename_i he
      simp [he]
    · rename_i he
      simp [he]

/-- **Whatever stands at a path was written there for a resource.** -/
theorem exists_of_lookup_paths (h : g.annotatedPaths.lookup path = some item) :
    ∃ q ∈ g.ordered, q.pattern ≠ [] ∧ (path, item) ∈ pathsOf q := by
  have hmem := mem_of_lookup_eq_some h
  rw [annotatedPaths] at hmem
  rcases mem_insertAll hmem with hmem | hmem
  · obtain ⟨q, hq, hmem⟩ := List.mem_flatMap.mp hmem
    split at hmem
    · cases hmem
    · rename_i hp
      exact ⟨q, hq, by simpa using hp, hmem⟩
  · cases hmem

/-- Something stands at every path to which a resource is written. -/
theorem lookup_paths_ne_none (hq : q ∈ g.ordered) (hp : q.pattern ≠ [])
    (hmem : (path, item) ∈ pathsOf q) : g.annotatedPaths.lookup path ≠ none := by
  rw [annotatedPaths, Ne, lookup_insertAll_eq_none_iff]
  refine fun h => h.1 (List.mem_map.mpr ⟨(path, item), List.mem_flatMap.mpr ⟨q, hq, ?_⟩, rfl⟩)
  rwa [if_neg (by simpa using hp)]

/-- No method with a name has a path of a resource. -/
def CustomsApart (g : ResourceGraph) : Prop :=
  ∀ q ∈ g.resources, ∀ m ∈ q.customs, ∀ r ∈ g.resources, q.pattern ≠ [] → r.pattern ≠ [] →
    itemPath q ++ ":" ++ m.name ≠ collectionPath r ∧ itemPath q ++ ":" ++ m.name ≠ itemPath r

instance (g : ResourceGraph) : Decidable g.CustomsApart :=
  inferInstanceAs (Decidable (∀ q ∈ g.resources, ∀ m ∈ q.customs, ∀ r ∈ g.resources,
    q.pattern ≠ [] → r.pattern ≠ [] → itemPath q ++ ":" ++ m.name ≠ collectionPath r ∧
      itemPath q ++ ":" ++ m.name ≠ itemPath r))

/-- What creates resources at the path of all of a kind changes and deletes none. -/
theorem not_patch_or_delete_of_post (ha : g.CustomsApart) (hr : r ∈ g.resources)
    (hp : r.pattern ≠ []) (hl : g.annotatedPaths.lookup (collectionPath r) = some item)
    {op : Operation} (hpost : item.post = some op) :
    ¬ item.patch.isSome = true ∧ ¬ item.delete.isSome = true := by
  obtain ⟨q, hq, hqp, hmem⟩ := exists_of_lookup_paths hl
  rcases mem_pathsOf_iff.mp hmem with ⟨-, rfl, -⟩ | ⟨-, rfl, -⟩ | ⟨m, hm, hpath, -⟩
  · exact ⟨Bool.false_ne_true, Bool.false_ne_true⟩
  · cases hpost
  · exact absurd hpath.symm (ha q (mem_resources_of_mem_ordered hq) m hm r hr hqp hp).1

/-! ## Clashes -/

/-- Of two resources that clash, one does not keep its operations. -/
theorem not_keeps_of_clash (ha : g.CustomsApart) (hr : r ∈ g.resources) (hp : r.pattern ≠ [])
    (hne : r.singular ≠ q.singular) (hclash : Clash r q) (hkr : (g.annotated doc).Keeps r) :
    ¬ (g.annotated doc).Keeps q := by
  intro hkq
  have hnames : ∀ {a : Option Schema}, a = some (componentRef r.singular) →
      a ≠ some (componentRef q.singular) := by
    rintro a rfl he
    exact hne (componentRef_inj (Option.some.inj he))
  have hcr := hkr.collection
  have hir := hkr.item
  have hiq := hkq.item
  cases hclash with
  | collections hpath hoffered =>
    have hcq := hkq.collection
    rw [← hpath] at hcq
    rcases hoffered with hlist | hcreate
    · obtain ⟨op, hop⟩ := Option.isSome_iff_exists.mp (hcr.list.trans hlist)
      exact hnames (hcr.listed op hop) (hcq.listed op hop)
    · obtain ⟨op, hop⟩ := Option.isSome_iff_exists.mp (hcr.create.trans hcreate)
      exact hnames (hcr.created op hop) (hcq.created op hop)
  | items hpath hoffered =>
    rw [← hpath] at hiq
    rcases hoffered with hget | hupdate | ⟨hdelete, hdelete'⟩
    · obtain ⟨op, hop⟩ := Option.isSome_iff_exists.mp (hir.get.trans hget)
      exact hnames (hir.got op hop) (hiq.got op hop)
    · obtain ⟨op, hop⟩ := Option.isSome_iff_exists.mp (hir.update.trans hupdate)
      exact hnames (hir.updated op hop) (hiq.updated op hop)
    · have hboth := hir.delete.symm.trans hiq.delete
      rw [hdelete, hdelete'] at hboth
      cases hboth
  | itemInCollection hpath hoffered =>
    rw [← hpath] at hiq
    -- What is got is no list, so one operation cannot be both.
    have hget : ∀ op, ((g.annotated doc).paths.lookup (collectionPath r)).bind PathItem.get ≠
        some op := by
      intro op hop
      have hlisted := hcr.listed op hop
      rw [hiq.got op hop] at hlisted
      cases hlisted
    rcases hoffered with hlist | hget' | ⟨hcreate, hchange⟩
    · obtain ⟨op, hop⟩ := Option.isSome_iff_exists.mp (hcr.list.trans hlist)
      exact hget op hop
    · obtain ⟨op, hop⟩ := Option.isSome_iff_exists.mp (hiq.get.trans hget')
      exact hget op hop
    · obtain ⟨op, hop⟩ := Option.isSome_iff_exists.mp (hcr.create.trans hcreate)
      obtain ⟨item, hl, hpost⟩ := Option.bind_eq_some_iff.mp hop
      rw [hl] at hiq
      rcases hchange with hupdate | hdelete
      · exact (not_patch_or_delete_of_post ha hr hp hl hpost).1 (hiq.update.trans hupdate)
      · exact (not_patch_or_delete_of_post ha hr hp hl hpost).2 (hiq.delete.trans hdelete)

/-- Resources of the index that have one name are the same. -/
theorem Sound.eq_of_ordered (hs : g.Sound) (hr : r ∈ g.ordered) (hq : q ∈ g.ordered)
    (hname : r.singular = q.singular) : r = q :=
  List.inj_on_of_nodup_map hs.nodup_ordered hr hq hname

section Apart

variable (hs : g.Sound) (ha : g.CustomsApart)
  (hapart : ∀ q ∈ g.ordered, ∀ q' ∈ g.ordered, q.pattern ≠ [] → q'.pattern ≠ [] →
    q.singular ≠ q'.singular → ¬ Clash q q')
  (hr : r ∈ g.ordered) (hp : r.pattern ≠ []) (hown : itemPath r ≠ collectionPath r)

include hs ha hapart hr hp hown

/-- Without clashes a resource keeps the operations on all of its kind. -/
theorem keepsCollection_of_apart (doc : Document) :
    (g.annotated doc).KeepsCollection r (g.annotatedPaths.lookup (collectionPath r)) := by
  have hmem := mem_resources_of_mem_ordered hr
  cases hl : g.annotatedPaths.lookup (collectionPath r) with
  | none =>
    have hnot : ¬ (r.methods.list = true ∨ r.methods.create.isSome = true) := fun hoffered =>
      lookup_paths_ne_none hr hp (mem_pathsOf_iff.mpr (.inl ⟨rfl, rfl, hoffered⟩)) hl
    rw [not_or, Bool.not_eq_true, Bool.not_eq_true] at hnot
    exact Document.keepsCollection_of_absent hnot.1 hnot.2 rfl rfl
  | some item =>
    obtain ⟨q, hq, hqp, hwritten⟩ := exists_of_lookup_paths hl
    rcases mem_pathsOf_iff.mp hwritten with ⟨hpath, rfl, hoffered⟩ | ⟨hpath, rfl, hoffered⟩ |
      ⟨m, hm, hpath, -⟩
    · -- It was written for all resources of a kind, which is that of the resource itself.
      by_cases hname : q.singular = r.singular
      · obtain rfl := hs.eq_of_ordered hq hr hname
        exact keepsCollection_collectionItem g doc q
      · exact absurd (.collections hpath.symm hoffered) (hapart q hq r hr hqp hp hname)
    · -- It was written for one resource of another kind, which changes or deletes it at most.
      have hname : r.singular ≠ q.singular := by
        intro hname
        obtain rfl := hs.eq_of_ordered hr hq hname
        exact hown hpath.symm
      obtain ⟨hlist, hget, hrest⟩ :=
        not_clash_itemInCollection (hapart r hr q hq hp hqp hname) hpath
      refine Document.keepsCollection_of_absent hlist ?_ (by simp [resourceItem, hget]) rfl
      grind
    · exact absurd hpath.symm (ha q (mem_resources_of_mem_ordered hq) m hm r hmem hqp hp).1

/-- Without clashes a resource keeps the operations on one of its kind. -/
theorem keepsItem_of_apart (doc : Document) :
    (g.annotated doc).KeepsItem r (g.annotatedPaths.lookup (itemPath r)) := by
  have hmem := mem_resources_of_mem_ordered hr
  cases hl : g.annotatedPaths.lookup (itemPath r) with
  | none =>
    have hnot : ¬ (r.methods.get = true ∨ r.methods.update = true ∨ r.methods.delete = true) :=
      fun hoffered =>
        lookup_paths_ne_none hr hp (mem_pathsOf_iff.mpr (.inr (.inl ⟨rfl, rfl, hoffered⟩))) hl
    rw [not_or, not_or, Bool.not_eq_true, Bool.not_eq_true, Bool.not_eq_true] at hnot
    exact Document.keepsItem_of_absent hnot.1 hnot.2.1 rfl rfl hnot.2.2.symm
  | some item =>
    obtain ⟨q, hq, hqp, hwritten⟩ := exists_of_lookup_paths hl
    rcases mem_pathsOf_iff.mp hwritten with ⟨hpath, rfl, hoffered⟩ | ⟨hpath, rfl, -⟩ |
      ⟨m, hm, hpath, -⟩
    · -- It was written for all resources of another kind, which creates them at most.
      have hname : q.singular ≠ r.singular := by
        intro hname
        obtain rfl := hs.eq_of_ordered hq hr hname
        exact hown hpath
      obtain ⟨hlist, hget, hrest⟩ :=
        not_clash_itemInCollection (hapart q hq r hr hqp hp hname) hpath.symm
      obtain ⟨hupdate, hdelete⟩ : r.methods.update = false ∧ r.methods.delete = false := by grind
      exact Document.keepsItem_of_absent hget hupdate (by simp [collectionItem, hlist]) rfl
        hdelete.symm
    · -- It was written for one resource of a kind, which is that of the resource itself, or
      -- for one that is deleted at most, as the resource is.
      by_cases hname : q.singular = r.singular
      · obtain rfl := hs.eq_of_ordered hq hr hname
        exact keepsItem_resourceItem g doc q
      · obtain ⟨⟨hget, hupdate⟩, ⟨hget', hupdate'⟩, hdelete⟩ := not_clash_items
          (hapart q hq r hr hqp hp hname) (hapart r hr q hq hp hqp (Ne.symm hname)) hpath.symm
        refine Document.keepsItem_of_absent hget' hupdate' (by simp [resourceItem, hget])
          (by simp [resourceItem, hupdate]) ?_
        rw [← hdelete]
        exact (keepsItem_resourceItem g doc q).delete
    · exact absurd hpath.symm (ha q (mem_resources_of_mem_ordered hq) m hm r hmem hqp hp).2

end Apart

/-- **When no resource loses an operation.**  All resources that have a pattern keep their
operations in the written document exactly if no two of them clash. -/
theorem keeps_iff {given : Option String} {start : String}
    (h : doc.resources given start = .ok g) (ha : g.CustomsApart) :
    (∀ r ∈ g.resources, r.pattern ≠ [] → (g.annotated doc).Keeps r) ↔
      ∀ r ∈ g.resources, ∀ q ∈ g.resources, r.pattern ≠ [] → q.pattern ≠ [] →
        r.singular ≠ q.singular → ¬ Clash r q := by
  constructor
  · intro hall r hr q hq hp hqp hname hclash
    exact not_keeps_of_clash ha hr hp hname hclash (hall r hr hp) (hall q hq hqp)
  · intro hnone r hr hp
    have hapart : ∀ q ∈ g.ordered, ∀ q' ∈ g.ordered, q.pattern ≠ [] → q'.pattern ≠ [] →
        q.singular ≠ q'.singular → ¬ Clash q q' := fun q hq q' hq' =>
      hnone q (mem_resources_of_mem_ordered hq) q' (mem_resources_of_mem_ordered hq')
    have hordered := Document.mem_ordered_of_pattern h hr hp
    have hown := itemPath_ne_collectionPath hp fun _ => Document.ne_empty_of_mem_pattern h hr
    have hs := Document.resources_sound h
    exact ⟨keepsCollection_of_apart hs ha hapart hordered hp hown doc,
      keepsItem_of_apart hs ha hapart hordered hp hown doc⟩

/-- Shelves and their books keep their operations. -/
theorem shelves_keeps : ∃ g, Document.shelves.resources none "" = .ok g ∧
    ∀ r ∈ g.resources, r.pattern ≠ [] → (g.annotated Document.shelves).Keeps r := by
  obtain ⟨g, hg, hfacts⟩ := exists_ok_of_map_toOption
    (f := fun g : ResourceGraph => (decide g.CustomsApart,
      decide (∀ r ∈ g.resources, ∀ q ∈ g.resources, r.pattern ≠ [] → q.pattern ≠ [] →
        r.singular ≠ q.singular → ¬ Clash r q)))
    (show (Document.shelves.resources none "").toOption.map _ = some (true, true)
      by decide +kernel)
  have ha : g.CustomsApart := of_decide_eq_true (congrArg Prod.fst hfacts)
  exact ⟨g, hg, (keeps_iff hg ha).mpr (of_decide_eq_true (congrArg Prod.snd hfacts))⟩

end ResourceGraph

namespace Document

/-- A document with users and the settings of each of them.  There is one resource of settings for
each user, without an id of its own: it is at a literal below the user. -/
def userSettings : Document where
  openapi := some "3.1.0"
  servers := [{ url := "http://localhost" }]
  paths := [
    ("/users/{user}", {
      patch := some { responses := answering (.refTo "#/components/schemas/User") }
      delete := some {} }),
    ("/users/{user}/settings", {
      post := some { responses := answering (.refTo "#/components/schemas/Settings") } })]
  components := [
    ("User", .typed "object"),
    ("Settings", { Schema.typed "object" with
      declared := some {
        singular := "settings"
        plural := "settings"
        patterns := ["/users/{user}/settings"] } })]

/-- In the written document the operations on a user stand where settings are created, and the
operation that creates them is lost. -/
theorem userSettings_lost : ∃ g, userSettings.resources none "" = .ok g ∧
    ∃ r ∈ g.resources, r.singular = "settings" ∧ r.pattern = ["users", "{user}", "settings"] ∧
      r.methods.create.isSome = true ∧
      ((g.annotated userSettings).paths.lookup (collectionPath r)).bind PathItem.post = none ∧
      ¬ (g.annotated userSettings).Keeps r := by
  obtain ⟨g, hg, hfacts⟩ := exists_ok_of_map_toOption
    (f := fun g : ResourceGraph => g.resources.map fun r =>
      (r.singular, r.pattern, r.methods.create.isSome,
        (((g.annotated userSettings).paths.lookup (collectionPath r)).bind PathItem.post).isSome))
    (show (userSettings.resources none "").toOption.map _ =
      some [("user", ["users", "{user}"], false, false),
        ("settings", ["users", "{user}", "settings"], true, false)] by decide +kernel)
  obtain ⟨r, hr, hsettings⟩ := List.mem_map.mp
    (hfacts ▸ List.mem_cons_of_mem _ List.mem_cons_self : ("settings", _) ∈ _)
  simp only [Prod.mk.injEq] at hsettings
  obtain ⟨hname, hpattern, hcreate, hpost⟩ := hsettings
  refine ⟨g, hg, r, hr, hname, hpattern, hcreate, by simpa using hpost, fun hkeeps => ?_⟩
  rw [← hkeeps.collection.create, hpost] at hcreate
  cases hcreate

end Document
end ResourceCli
