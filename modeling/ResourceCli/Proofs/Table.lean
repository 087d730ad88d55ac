import ResourceCli.Json.Basic
import ResourceCli.Shape.Basic
import Mathlib.Data.List.Nodup

/-!
# Tables by name

A table is a list of entries, each with a name.  Two operations put an entry in: `Json.insertSorted`
keeps the names in order, and `Tree.insert` keeps the order of arrival.  Either way the entry is
found under its name afterwards and all others are found as before.

* `lookup_insertSorted`, `lookup_insert`: what is found afterwards.
* `pairwise_insertSorted`, `nodup_keys_insert`: names stay in order, and stay distinct.
-/

namespace ResourceCli

variable {α : Type}

/-- The names of a table. -/
def keys (table : List (String × α)) : List String := table.map Prod.fst

@[simp] theorem keys_nil : keys ([] : List (String × α)) = [] := rfl

@[simp] theorem keys_cons (e : String × α) (table : List (String × α)) :
    keys (e :: table) = e.1 :: keys table := rfl

@[simp] theorem keys_append (table table' : List (String × α)) :
    keys (table ++ table') = keys table ++ keys table' := List.map_append

theorem mem_of_lookup_eq_some {table : List (String × α)} {name : String} {a : α}
    (h : table.lookup name = some a) : (name, a) ∈ table := by
  obtain ⟨before, after, rfl, -⟩ := List.lookup_eq_some_iff.1 h
  exact List.mem_append_right _ List.mem_cons_self

theorem mem_keys_of_lookup_eq_some {table : List (String × α)} {name : String} {a : α}
    (h : table.lookup name = some a) : name ∈ keys table :=
  List.mem_map_of_mem (mem_of_lookup_eq_some h)

theorem lookup_cons_of_ne {k name : String} (h : name ≠ k) (a : α) (table : List (String × α)) :
    ((k, a) :: table).lookup name = table.lookup name := by
  rw [List.lookup_cons, beq_eq_false_iff_ne.2 h]

theorem lookup_eq_none_iff {table : List (String × α)} {name : String} :
    table.lookup name = none ↔ name ∉ keys table := by
  induction table with
  | nil => simp
  | cons e table ih =>
    obtain ⟨k, v⟩ := e
    rw [keys_cons, List.mem_cons, not_or, ← ih]
    by_cases hk : name = k
    · simp [hk]
    · rw [lookup_cons_of_ne hk]
      exact ⟨fun h => ⟨hk, h⟩, fun h => h.2⟩

/-- Changing what stands under the names changes what is found. -/
theorem lookup_map {β : Type} (f : α → β) (table : List (String × α)) (name : String) :
    (table.map fun e => (e.1, f e.2)).lookup name = (table.lookup name).map f := by
  induction table with
  | nil => rfl
  | cons e table ih =>
    obtain ⟨k, a⟩ := e
    rw [List.map_cons]
    by_cases h : name = k
    · rw [h, List.lookup_cons_self, List.lookup_cons_self, Option.map_some]
    · rw [lookup_cons_of_ne h, lookup_cons_of_ne h, ih]

/-- With distinct names what is in a list is found under its name. -/
theorem find?_of_mem {name : α → String} {as : List α} (hn : (as.map name).Nodup) {a : α}
    (ha : a ∈ as) : as.find? (name · == name a) = some a := by
  induction as with
  | nil => cases ha
  | cons b as ih =>
    rw [List.map_cons, List.nodup_cons] at hn
    rcases List.mem_cons.1 ha with rfl | ha
    · exact List.find?_cons_of_pos (beq_self_eq_true _)
    · have hne : (name b == name a) = false :=
        beq_eq_false_iff_ne.2 fun he => hn.1 (he ▸ List.mem_map_of_mem ha)
      rw [List.find?_cons, hne]
      exact ih hn.2 ha

/-- In a table with distinct names an entry is what is found under its name. -/
theorem lookup_of_mem {table : List (String × α)} (hn : (keys table).Nodup) {name : String} {a : α}
    (h : (name, a) ∈ table) : table.lookup name = some a := by
  induction table with
  | nil => cases h
  | cons e table ih =>
    obtain ⟨k, v⟩ := e
    rw [keys_cons, List.nodup_cons] at hn
    rcases List.mem_cons.1 h with he | ht
    · cases he
      exact List.lookup_cons_self
    · have hk : name ≠ k := by
        rintro rfl
        exact hn.1 (List.mem_map.2 ⟨_, ht, rfl⟩)
      rw [lookup_cons_of_ne hk, ih hn.2 ht]

/-! ## Entries in the order of names -/

theorem lookup_insertSorted (name : String) (a : α) (table : List (String × α)) (k : String) :
    (Json.insertSorted name a table).lookup k =
      if k = name then some a else table.lookup k := by
  induction table with
  | nil =>
    rw [Json.insertSorted]
    split
    · rename_i hk
      rw [hk, List.lookup_cons_self]
    · rename_i hk
      rw [lookup_cons_of_ne hk]
  | cons e table ih =>
    obtain ⟨k', v⟩ := e
    rw [Json.insertSorted]
    by_cases hlt : name < k'
    · rw [if_pos hlt]
      split
      · rename_i hk
        rw [hk, List.lookup_cons_self]
      · rename_i hk
        rw [lookup_cons_of_ne hk]
    · rw [if_neg hlt]
      by_cases he : name = k'
      · rw [if_pos (beq_iff_eq.2 he)]
        split
        · rename_i hk
          rw [hk, List.lookup_cons_self]
        · rename_i hk
          rw [lookup_cons_of_ne hk, lookup_cons_of_ne (he ▸ hk)]
      · rw [if_neg (by simpa using he)]
        by_cases hk : k = k'
        · rw [hk, List.lookup_cons_self, List.lookup_cons_self, if_neg (Ne.symm he)]
        · rw [lookup_cons_of_ne hk, lookup_cons_of_ne hk, ih]

theorem mem_insertSorted {name : String} {a : α} {table : List (String × α)} {e : String × α}
    (h : e ∈ Json.insertSorted name a table) : e = (name, a) ∨ e ∈ table := by
  induction table with
  | nil => exact .inl (List.mem_singleton.1 h)
  | cons e' table ih =>
    rw [Json.insertSorted] at h
    split at h
    · exact List.mem_cons.1 h
    · split at h
      · rcases List.mem_cons.1 h with h | h
        · exact .inl h
        · exact .inr (List.mem_cons_of_mem _ h)
      · rcases List.mem_cons.1 h with h | h
        · exact .inr (h ▸ List.mem_cons_self)
        · exact (ih h).imp_right (List.mem_cons_of_mem _)

theorem keys_insertSorted_subset {name k : String} {a : α} {table : List (String × α)}
    (h : k ∈ keys (Json.insertSorted name a table)) : k = name ∨ k ∈ keys table := by
  obtain ⟨e, he, rfl⟩ := List.mem_map.1 h
  rcases mem_insertSorted he with rfl | he
  · exact .inl rfl
  · exact .inr (List.mem_map_of_mem he)

/-- Names that are in order stay in order. -/
theorem pairwise_insertSorted {table : List (String × α)} (h : (keys table).Pairwise (· < ·))
    (name : String) (a : α) : (keys (Json.insertSorted name a table)).Pairwise (· < ·) := by
  induction table with
  | nil => exact List.pairwise_singleton _ _
  | cons e table ih =>
    obtain ⟨k, v⟩ := e
    rw [keys_cons, List.pairwise_cons] at h
    rw [Json.insertSorted]
    split
    · rename_i hlt
      rw [keys_cons, keys_cons, List.pairwise_cons, List.pairwise_cons]
      refine ⟨fun k' hk' => ?_, h⟩
      rcases List.mem_cons.1 hk' with rfl | hk'
      · exact hlt
      · exact String.lt_trans hlt (h.1 k' hk')
    · rename_i hlt
      split
      · rename_i he
        rw [keys_cons, beq_iff_eq.1 he, List.pairwise_cons]
        exact h
      · rename_i he
        rw [keys_cons, List.pairwise_cons]
        refine ⟨fun k' hk' => ?_, ih h.2⟩
        rcases keys_insertSorted_subset hk' with rfl | hk'
        · have hne : k' ≠ k := by simpa using he
          exact String.not_le.1 fun hle => hne (String.le_antisymm hle (String.not_lt.1 hlt))
        · exact h.1 k' hk'

/-! ## Entries in the order of arrival -/

theorem lookup_insert (name : String) (a : α) (table : List (String × α)) (k : String) :
    (Tree.insert name a table).lookup k = if k = name then some a else table.lookup k := by
  induction table with
  | nil =>
    rw [Tree.insert]
    split
    · rename_i hk
      rw [hk, List.lookup_cons_self]
    · rename_i hk
      rw [lookup_cons_of_ne hk]
  | cons e table ih =>
    obtain ⟨k', v⟩ := e
    rw [Tree.insert]
    by_cases he : k' = name
    · rw [if_pos (beq_iff_eq.2 he)]
      split
      · rename_i hk
        rw [hk, he, List.lookup_cons_self]
      · rename_i hk
        rw [lookup_cons_of_ne (he ▸ hk), lookup_cons_of_ne (he ▸ hk)]
    · rw [if_neg (by simpa using he)]
      by_cases hk : k = k'
      · rw [hk, List.lookup_cons_self, List.lookup_cons_self, if_neg he]
      · rw [lookup_cons_of_ne hk, lookup_cons_of_ne hk, ih]

/-- A new name goes to the end. -/
theorem insert_of_notMem {name : String} {table : List (String × α)} (h : name ∉ keys table)
    (a : α) : Tree.insert name a table = table ++ [(name, a)] := by
  induction table with
  | nil => rfl
  | cons e table ih =>
    obtain ⟨k, v⟩ := e
    rw [keys_cons, List.mem_cons, not_or] at h
    rw [Tree.insert, if_neg (by simpa using Ne.symm h.1), ih h.2, List.cons_append]

/-- A name that is there already stays where it is. -/
theorem keys_insert_of_mem {name : String} {table : List (String × α)} (h : name ∈ keys table)
    (a : α) : keys (Tree.insert name a table) = keys table := by
  induction table with
  | nil => cases h
  | cons e table ih =>
    obtain ⟨k, v⟩ := e
    rw [Tree.insert]
    split
    · rfl
    · rename_i he
      have hne : name ≠ k := fun h => he (beq_iff_eq.2 h.symm)
      rw [keys_cons, keys_cons, ih ((List.mem_cons.1 h).resolve_left hne)]

theorem nodup_keys_insert {table : List (String × α)} (h : (keys table).Nodup) (name : String)
    (a : α) : (keys (Tree.insert name a table)).Nodup := by
  by_cases hm : name ∈ keys table
  · rw [keys_insert_of_mem hm]
    exact h
  · rw [insert_of_notMem hm, keys_append]
    refine List.nodup_append.2 ⟨h, List.nodup_singleton _, ?_⟩
    rintro k hk _ hk' rfl
    have hname : k = name := List.mem_singleton.1 hk'
    exact hm (hname ▸ hk)

end ResourceCli
