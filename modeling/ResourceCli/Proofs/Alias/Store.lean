import ResourceCli.Alias.Store
import ResourceCli.Proofs.File.Disk
import ResourceCli.Proofs.Run.Played
import ResourceCli.Proofs.Table
import ResourceCli.Proofs.Text.Cutting
import ResourceCli.Proofs.Text.Utf8
import Mathlib.Data.List.Induction
import Mathlib.Data.List.Sublists

/-!
# Aliases over whole runs

Aliases are stored by attempts, each of which reads the file, adds an alias and writes the file
anew, while the system may refuse any of the operations.  What the file then holds is what the
attempts that worked have stored (`Holds`): one that fails changes nothing but that there may be
further directories, and one that works adds its alias to what was read.

* `Settings.storing`: the settings that come from storing some aliases one after another; of
  several with one name the last one is found (`find?_storing`).
* `add_spec`: one attempt.
* `holds_after`: what a run leaves in the file is what was stored in it.
* `after_attempts`: the store behaves as a map, at every point of every run.
-/

namespace ResourceCli

/-! ## Settings that come from storing -/

namespace Settings

/-- The settings that come from storing aliases one after another. -/
def storing (stored : List ApiAlias) : Settings := stored.foldl insert {}

theorem storing_append (stored : List ApiAlias) (a : ApiAlias) :
    storing (stored ++ [a]) = (storing stored).insert a := by
  rw [storing, storing, List.foldl_append]
  rfl

/-- Of the aliases with one name the one that was stored last is found. -/
theorem find?_storing (stored : List ApiAlias) (name : String) :
    (storing stored).find? name = stored.reverse.find? (·.name == name) := by
  induction stored using List.reverseRecOn with
  | nil => rfl
  | append_singleton stored a ih =>
    rw [storing_append, find?, insert, lookup_insertSorted, List.reverse_append,
      List.reverse_singleton, List.singleton_append]
    by_cases h : name = a.name
    · rw [if_pos h, List.find?_cons_of_pos (by simpa using h.symm)]
    · rw [if_neg h, List.find?_cons_of_neg (by simpa using Ne.symm h)]
      exact ih

/-- The names are in order. -/
theorem pairwise_storing (stored : List ApiAlias) :
    (keys (storing stored).aliases).Pairwise (· < ·) := by
  induction stored using List.reverseRecOn with
  | nil => exact .nil
  | append_singleton stored a ih =>
    rw [storing_append]
    exact pairwise_insertSorted ih a.name a

/-- Every alias stands under its own name. -/
theorem name_of_mem_storing {stored : List ApiAlias} {entry : String × ApiAlias}
    (h : entry ∈ (storing stored).aliases) : entry.1 = entry.2.name := by
  induction stored using List.reverseRecOn with
  | nil => cases h
  | append_singleton stored a ih =>
    rw [storing_append] at h
    rcases mem_insertSorted h with rfl | h
    · rfl
    · exact ih h

/-- The names of all aliases, in order. -/
theorem map_name_storing (stored : List ApiAlias) :
    ((storing stored).aliases.map Prod.snd).map ApiAlias.name = keys (storing stored).aliases := by
  rw [List.map_map]
  exact List.map_congr_left fun entry h => (name_of_mem_storing h).symm

/-- All aliases are those that are found under their names. -/
theorem mem_storing_iff {stored : List ApiAlias} {a : ApiAlias} :
    a ∈ (storing stored).aliases.map Prod.snd ↔
      stored.reverse.find? (·.name == a.name) = some a := by
  rw [← find?_storing, List.mem_map]
  constructor
  · rintro ⟨entry, h, rfl⟩
    have hn : entry.1 = entry.2.name := name_of_mem_storing h
    have hd : (keys (storing stored).aliases).Nodup :=
      (pairwise_storing stored).imp fun {_ _} h => String.ne_of_lt h
    exact lookup_of_mem hd (by rw [← hn]; exact h)
  · intro h
    exact ⟨(a.name, a), mem_of_lookup_eq_some h, rfl⟩

end Settings

/-! ## What a well-formed alias is -/

/-- A header that is well formed: a key that is not blank, the sign, and a value. -/
def IsHeader (header : String) : Prop :=
  ∃ key value, '=' ∉ key.toList ∧ header = key ++ "=" ++ value ∧ Text.trim key ≠ ""

/-- A header that is read is well formed. -/
theorem isHeader_of_readHeader {header : String} {pair : String × String}
    (h : readHeader header = .ok pair) : IsHeader header := by
  rw [readHeader] at h
  cases hc : Text.cutFirst '=' header.toList with
  | none => rw [hc] at h; cases h
  | some cut =>
    obtain ⟨key, value⟩ := cut
    simp only [hc] at h
    split at h
    · cases h
    · next hk =>
      refine ⟨String.ofList key, String.ofList value, ?_, ?_, by simpa using hk⟩
      · rw [String.toList_ofList]
        exact Text.notMem_of_cutFirst hc
      · rw [← String.toList_inj, Text.append_of_cutFirst hc]
        simp

theorem isHeader_of_forM {headers : List String}
    (h : (headers.forM fun header => discard (readHeader header)) = .ok ()) :
    ∀ header ∈ headers, IsHeader header := by
  induction headers with
  | nil => intro _ hm; cases hm
  | cons header headers ih =>
    cases hr : readHeader header with
    | error failure =>
      rw [List.forM, hr] at h
      cases h
    | ok pair =>
      rw [List.forM, hr] at h
      exact List.forall_mem_cons.mpr ⟨isHeader_of_readHeader hr, ih h⟩

/-- An alias that passes its check has a name, and its headers are well formed. -/
theorem AliasStore.check_eq_ok {a : ApiAlias} (h : AliasStore.check a = .ok ()) :
    Text.trim a.name ≠ "" ∧ ∀ header ∈ a.headers, IsHeader header := by
  rw [check] at h
  by_cases hn : Text.trim a.name = ""
  · simp only [hn] at h
    cases h
  · refine ⟨hn, isHeader_of_forM ?_⟩
    rwa [if_neg (by simpa using hn)] at h

/-! ## Reading, writing and adding -/

namespace AliasStore

variable {store : AliasStore} {w : World}

/-- What a file of aliases holds: nothing if nothing was stored, and else the settings that come
from what was stored. -/
def Holds (store : AliasStore) (d : Disk) (stored : List ApiAlias) : Prop :=
  (stored = [] ∧ d.content? store.file = none) ∨
    d.find store.file =
      .ok (.file (Text.utf8Encode (store.format.write (Settings.storing stored))))

/-- Further directories leave the file as it is. -/
theorem Holds.widened {d d' : Disk} {stored : List ApiAlias} (h : store.Holds d stored)
    (hd : d.Widened d') : store.Holds d' stored :=
  h.imp (fun ⟨h1, h2⟩ => ⟨h1, (hd.content? store.file).trans h2⟩) hd.find

/-- A file of aliases that holds what was stored is read as that; reading it changes nothing on the
disk, and fails only if there is something that cannot be read. -/
theorem load_of_holds {stored : List ApiAlias} (hs : store.Holds w.disk stored)
    (hc : store.format.read? (store.format.write (Settings.storing stored)) =
      some (Settings.storing stored)) :
    ∃ w', w'.disk = w.disk ∧
      (store.load.play w = (.ok (Settings.storing stored), w') ∨
        ∃ fault, w.disk.has store.file = true ∧ w.disk.readText store.file = .error fault ∧
          store.load.play w = (.error { failure := .file fault }, w')) := by
  have hhas : (Job.has store.file).play w = (.ok (w.disk.has store.file), w) := rfl
  rw [load, Job.play_bind_ok hhas]
  cases hh : w.disk.has store.file with
  | false =>
    rcases hs with ⟨rfl, -⟩ | hf
    · refine ⟨(store.load.play w).2, ?_, .inl ?_⟩
      · rw [load, Job.play_bind_ok hhas, hh]; rfl
      · rw [load, Job.play_bind_ok hhas, hh]; rfl
    · simp [Disk.has, hf, Except.toOption] at hh
  | true =>
    have hread := Job.play_readText store.file .file w
    rw [if_pos rfl]
    cases ht : w.disk.readText store.file with
    | error fault =>
      rw [ht] at hread
      exact ⟨w, rfl, .inr ⟨fault, rfl, rfl, Job.play_bind_error hread⟩⟩
    | ok text =>
      rw [ht] at hread
      obtain ⟨content, hfind, hdecode⟩ := Disk.find_of_readText ht
      have htext : text = store.format.write (Settings.storing stored) := by
        rcases hs with ⟨-, hnone⟩ | hf
        · rw [Disk.content?_of_find hfind] at hnone
          cases hnone
        · obtain rfl : content = _ := by simpa using hfind.symm.trans hf
          exact (Option.some.inj ((Text.utf8Decode?_utf8Encode _).symm.trans hdecode)).symm
      rw [Job.play_bind_ok hread, htext, hc]
      exact ⟨w, rfl, .inl rfl⟩

/-- Writing fails with nothing but further directories, or else the file is there with the
settings. -/
theorem save_spec (store : AliasStore) (settings : Settings) (w : World) :
    ∃ w', (∃ report, (store.save settings).play w = (.error report, w') ∧
        w.disk.Widened w'.disk) ∨
      ((store.save settings).play w = (.ok (), w') ∧
        w'.disk.find store.file = .ok (.file (Text.utf8Encode (store.format.write settings)))) := by
  have hmake := Job.play_makeDirectories store.directory w
  rw [save]
  cases hd : w.disk.makeDirectories store.directory with
  | error fault =>
    rw [hd] at hmake
    exact ⟨w, .inl ⟨_, Job.play_bind_error hmake, .refl _⟩⟩
  | ok disk =>
    rw [hd] at hmake
    have hwrite := Job.play_write store.file (store.format.write settings) { w with disk := disk }
    rw [Job.play_bind_ok hmake, hwrite]
    cases hw : disk.write store.file (Text.utf8Encode (store.format.write settings)) with
    | error fault => exact ⟨_, .inl ⟨_, rfl, Disk.widened_of_makeDirectories hd⟩⟩
    | ok disk' => exact ⟨_, .inr ⟨rfl, Disk.find_of_write hw⟩⟩

/-- **One attempt to store an alias.**  Either it fails, and there are at most further directories;
or it works, and then the alias is well formed, it is new or may be overwritten, and the file holds
it in addition to what was there. -/
theorem add_spec {stored : List ApiAlias} (hs : store.Holds w.disk stored)
    (hc : store.format.read? (store.format.write (Settings.storing stored)) =
      some (Settings.storing stored)) (a : ApiAlias) (overwrite : Bool) :
    (∃ report w', (store.add a overwrite).play w = (.error report, w') ∧ w.disk.Widened w'.disk) ∨
      (∃ w', (store.add a overwrite).play w = (.ok (), w') ∧ check a = .ok () ∧
        ((Settings.storing stored).find? a.name = none ∨ overwrite = true) ∧
        store.Holds w'.disk (stored ++ [a])) := by
  rw [add]
  cases hk : check a with
  | error failure => exact .inl ⟨_, w, rfl, .refl _⟩
  | ok =>
    have hcheck : (Job.ofExcept (.ok ())).play w = (.ok (), w) := rfl
    rw [Job.play_bind_ok hcheck]
    obtain ⟨w', hw', hload | ⟨fault, -, -, hload⟩⟩ := load_of_holds hs hc
    · rw [Job.play_bind_ok hload]
      by_cases hnew : (Settings.storing stored).find? a.name = none ∨ overwrite = true
      · have hgo : (((Settings.storing stored).find? a.name).isSome && !overwrite) = false := by
          rcases hnew with h | h <;> simp [h]
        rw [hgo]
        obtain ⟨w'', ⟨report, hsave, hwide⟩ | ⟨hsave, hfind⟩⟩ :=
          save_spec store ((Settings.storing stored).insert a) w'
        · exact .inl ⟨report, w'', hsave, hw' ▸ hwide⟩
        · refine .inr ⟨w'', hsave, rfl, hnew, .inr ?_⟩
          rw [hfind, Settings.storing_append]
      · obtain ⟨hfound, hover⟩ := not_or.mp hnew
        have hstop : (((Settings.storing stored).find? a.name).isSome && !overwrite) = true := by
          simp [Option.isSome_iff_ne_none.mpr hfound, hover]
        rw [hstop]
        exact .inl ⟨_, w', rfl, hw' ▸ .refl _⟩
    · exact .inl ⟨_, w', Job.play_bind_error hload, hw' ▸ .refl _⟩

end AliasStore

/-! ## Runs -/

/-- The world with other things that the system refuses. -/
def World.refusing (w : World) (refuses : FileOperation → String → Option FileFault) : World :=
  { w with disk := { w.disk with refuses := refuses } }

theorem World.widened_refusing (w : World) (refuses : FileOperation → String → Option FileFault) :
    w.disk.Widened (w.refusing refuses).disk :=
  ⟨rfl, fun _ => .inl rfl⟩

/-- An attempt to store an alias. -/
structure Attempt where
  /-- The alias. -/
  entry : ApiAlias
  /-- Whether an alias with the same name may be overwritten. -/
  overwrite : Bool := false
  /-- What the system refuses meanwhile. -/
  refuses : FileOperation → String → Option FileFault := fun _ _ => none

namespace AliasStore

variable (store : AliasStore)

/-- What comes of an attempt. -/
def attempt (w : World) (t : Attempt) : Except Report Unit × World :=
  (store.add t.entry t.overwrite).play (w.refusing t.refuses)

/-- The world after some attempts, one after another. -/
def after (w : World) (attempts : List Attempt) : World :=
  attempts.foldl (fun w t => (store.attempt w t).2) w

/-- The aliases that some attempts have stored, in order. -/
def stored (w : World) : List Attempt → List ApiAlias
  | [] => []
  | t :: rest =>
    match store.attempt w t with
    | (.ok _, w') => t.entry :: stored w' rest
    | (.error _, w') => stored w' rest

/-- What is stored was attempted, in the same order. -/
theorem sublist_stored (w : World) (attempts : List Attempt) :
    (store.stored w attempts).Sublist (attempts.map Attempt.entry) := by
  induction attempts generalizing w with
  | nil => exact .slnil
  | cons t rest ih =>
    rw [stored, List.map_cons]
    split
    · exact (ih _).cons_cons _
    · exact (ih _).cons _

variable {store} {w : World}

/-- **One attempt**, whatever the system refuses meanwhile. -/
theorem attempt_spec {stored : List ApiAlias} (hs : store.Holds w.disk stored)
    (hc : store.format.read? (store.format.write (Settings.storing stored)) =
      some (Settings.storing stored)) (t : Attempt) :
    (∃ report w', store.attempt w t = (.error report, w') ∧ w.disk.Widened w'.disk) ∨
      (∃ w', store.attempt w t = (.ok (), w') ∧ check t.entry = .ok () ∧
        ((∀ a ∈ stored, a.name ≠ t.entry.name) ∨ t.overwrite = true) ∧
        store.Holds w'.disk (stored ++ [t.entry])) := by
  have hwide := w.widened_refusing t.refuses
  rcases add_spec (hs.widened hwide) hc t.entry t.overwrite with
    ⟨report, w', he, hw⟩ | ⟨w', he, hk, hnew, hw⟩
  · exact .inl ⟨report, w', he, hwide.trans hw⟩
  · refine .inr ⟨w', he, hk, hnew.imp_left fun h a ha hn => ?_, hw⟩
    rw [Settings.find?_storing, List.find?_eq_none] at h
    exact h a (List.mem_reverse.mpr ha) (by simpa using hn)

/-- The file holds what some attempts have stored, in addition to what it held before. -/
theorem holds_after {before : List ApiAlias} (hs : store.Holds w.disk before)
    (attempts : List Attempt)
    (hc : ∀ aliases, aliases.Sublist (before ++ attempts.map Attempt.entry) →
      store.format.read? (store.format.write (Settings.storing aliases)) =
        some (Settings.storing aliases)) :
    store.Holds (store.after w attempts).disk (before ++ store.stored w attempts) := by
  induction attempts generalizing w before with
  | nil => simpa [stored, after] using hs
  | cons t rest ih =>
    have hread := hc before (List.sublist_append_left ..)
    rw [after, List.foldl_cons, ← after, stored]
    rcases attempt_spec hs hread t with ⟨report, w', he, hw⟩ | ⟨w', he, -, -, hw⟩
    · rw [he]
      refine ih (hs.widened hw) fun aliases ha => hc aliases (ha.trans ?_)
      exact (List.Sublist.refl before).append (List.sublist_cons_self ..)
    · rw [he]
      have := ih hw fun aliases ha => hc aliases (by simpa using ha)
      simpa using this

/-- **What is read** where the file can be: each name has the alias stored with it last, and the
list has all of these. -/
theorem reads_of_holds {stored : List ApiAlias} (hs : store.Holds w.disk stored)
    (hc : store.format.read? (store.format.write (Settings.storing stored)) =
      some (Settings.storing stored))
    (hreadable : w.disk.has store.file = true → ∃ text, w.disk.readText store.file = .ok text) :
    (∀ name, ((store.find? name).play w).1 = .ok (stored.reverse.find? (·.name == name))) ∧
      ∃ all, (store.list.play w).1 = .ok all ∧ (all.map ApiAlias.name).Pairwise (· < ·) ∧
        ∀ a, a ∈ all ↔ stored.reverse.find? (·.name == a.name) = some a := by
  obtain ⟨w', -, hload | ⟨fault, hhas, hfault, -⟩⟩ := load_of_holds hs hc
  · refine ⟨fun name => ?_, _, ?_, ?_, fun a => Settings.mem_storing_iff⟩
    · rw [find?, Job.play_map, hload]
      exact congrArg Except.ok (Settings.find?_storing _ name)
    · rw [list, Job.play_map, hload]
      rfl
    · rw [Settings.map_name_storing]
      exact Settings.pairwise_storing _
  · obtain ⟨text, htext⟩ := hreadable hhas
    rw [hfault] at htext
    cases htext

/-- **The store behaves as a map over whole runs, and its failures change nothing.**  No file is
there at first; then come any attempts, each with what the system refuses meanwhile.  After them

* a further attempt that fails leaves the file as it is, and one that works is of an alias that has
  a name and well-formed headers, and that is new or may be overwritten;
* whenever the file can be read, each name has the alias that was stored with it last, and the list
  has all of these, each once, in the order of their names.

What is asked of the format is that settings which such attempts can lead to are read as they were
written. -/
theorem after_attempts (hm : w.disk.content? store.file = none) (attempts : List Attempt)
    (hc : ∀ aliases, aliases.Sublist (attempts.map Attempt.entry) →
      store.format.read? (store.format.write (Settings.storing aliases)) =
        some (Settings.storing aliases)) :
    (∀ next : Attempt,
      (∀ report w', store.attempt (store.after w attempts) next = (.error report, w') →
        w'.disk.content? store.file = (store.after w attempts).disk.content? store.file) ∧
      (∀ w', store.attempt (store.after w attempts) next = (.ok (), w') →
        Text.trim next.entry.name ≠ "" ∧ (∀ header ∈ next.entry.headers, IsHeader header) ∧
          ((∀ a ∈ store.stored w attempts, a.name ≠ next.entry.name) ∨ next.overwrite = true))) ∧
    (∀ refuses now, now = (store.after w attempts).refusing refuses →
      (now.disk.has store.file = true → ∃ text, now.disk.readText store.file = .ok text) →
      (∀ name, ((store.find? name).play now).1 =
        .ok ((store.stored w attempts).reverse.find? (·.name == name))) ∧
      ∃ all, (store.list.play now).1 = .ok all ∧ (all.map ApiAlias.name).Pairwise (· < ·) ∧
        ∀ a, a ∈ all ↔
          (store.stored w attempts).reverse.find? (·.name == a.name) = some a) := by
  have hstored : store.Holds (store.after w attempts).disk (store.stored w attempts) :=
    holds_after (.inl ⟨rfl, hm⟩) attempts hc
  have hread := hc _ (store.sublist_stored w attempts)
  constructor
  · intro next
    rcases attempt_spec hstored hread next with ⟨report, w', he, hw⟩ | ⟨w', he, hk, hnew, -⟩
    · rw [he]
      refine ⟨fun _ _ h => ?_, fun _ h => by cases h⟩
      cases h
      exact hw.content? store.file
    · rw [he]
      refine ⟨fun _ _ h => (by cases h), fun _ _ => ?_⟩
      obtain ⟨hname, hheaders⟩ := check_eq_ok hk
      exact ⟨hname, hheaders, hnew⟩
  · rintro refuses _ rfl hreadable
    have hwide := (store.after w attempts).widened_refusing refuses
    exact reads_of_holds (hstored.widened hwide) hread hreadable

/-- A file of aliases on an empty disk. -/
def shopStore : AliasStore := { file := "/conf/config.toml" }

/-- An alias of a shop. -/
def shopAlias : ApiAlias := { name := "shop", document := "a.yaml", headers := ["X-Key=1"] }

/-- Two attempts, during the first of which the system refuses to write. -/
def shopAttempts : List Attempt :=
  [{ entry := { name := "bank" }
     refuses := fun o _ => if o = .write then some .tooLong else none },
    { entry := shopAlias }]

/-- The shop was stored and the bank was not; the shop cannot be stored once more. -/
theorem after_attempts_shop :
    shopStore.stored {} shopAttempts = [shopAlias] ∧
      (∀ w', shopStore.attempt (shopStore.after {} shopAttempts) { entry := shopAlias } ≠
        (.ok (), w')) ∧
      ((shopStore.find? "shop").play (shopStore.after {} shopAttempts)).1 = .ok (some shopAlias) ∧
      ((shopStore.find? "bank").play (shopStore.after {} shopAttempts)).1 = .ok none := by
  have hc : ∀ aliases ∈ (shopAttempts.map Attempt.entry).sublists,
      shopStore.format.read? (shopStore.format.write (Settings.storing aliases)) =
        some (Settings.storing aliases) := by decide +kernel
  have hmissing : ({} : World).disk.content? shopStore.file = none := by decide +kernel
  have hrun := after_attempts hmissing shopAttempts
    fun aliases ha => hc aliases (List.mem_sublists.mpr ha)
  have hstored : shopStore.stored {} shopAttempts = [shopAlias] := by decide +kernel
  have hread : ((shopStore.after {} shopAttempts).disk.readText shopStore.file).toOption.isSome =
      true := by decide +kernel
  have hreadable : ∃ text,
      (shopStore.after {} shopAttempts).disk.readText shopStore.file = .ok text := by
    cases h : (shopStore.after {} shopAttempts).disk.readText shopStore.file with
    | ok text => exact ⟨text, rfl⟩
    | error fault => rw [h] at hread; cases hread
  obtain ⟨hfind, -⟩ :=
    hrun.2 (shopStore.after {} shopAttempts).disk.refuses _ rfl fun _ => hreadable
  rw [hstored] at hfind
  refine ⟨hstored, fun w' h => ?_, hfind "shop", hfind "bank"⟩
  rcases (hrun.1 { entry := shopAlias }).2 w' h with ⟨-, -, hnew | hover⟩
  · rw [hstored] at hnew
    exact hnew shopAlias List.mem_cons_self rfl
  · cases hover

end AliasStore

end ResourceCli
