import Mathlib.Data.List.Basic
import ResourceCli.File.Disk

/-!
# What changes on a disk

A path names a place by its names alone (`Disk.destination`): whether the directories that it goes
through are there decides only whether the place is reached.  So the content of the file that a
path names (`Disk.content?`) is a matter of that place, and it is told what each operation does
to it.

* `find_eq_ok`: what is found at a path stands at its destination.
* `Disk.Widened`: a disk has got further directories where nothing was.  All that was found before
  is found as it was (`Widened.find`), and no file is lost, changed or made (`Widened.content?`).
* `widened_of_makeDirectories`: making a directory does no more than that.
* `find_of_write`: a file that was written is found with what was written.
-/

namespace ResourceCli.Disk

open Text (Bytes)

/-! ## The place that a path names -/

/-- The place to which names lead from a directory, whatever stands on the way. -/
def lead (place : Place) : List String → Place
  | [] => place
  | name :: rest =>
    if name == "." then lead place rest
    else if name == ".." then lead place.dropLast rest
    else lead (place ++ [name]) rest

/-- The place that a path names. -/
def destination (d : Disk) (path : String) : Place :=
  lead (if Path.isAbsolute path then [] else d.home) (steps path)

/-- The content of the file that a path names; none if there is no such file. -/
def content? (d : Disk) (path : String) : Option Bytes :=
  match d.lookup? (d.destination path) with
  | some (.file content) => some content
  | _ => none

/-- One step of a walk that goes on. -/
theorem walk_cons {d : Disk} {place target : Place} {name : String} {rest : List String}
    (h : d.walk place (name :: rest) = .ok target) :
    (name = "." ∧ d.walk place rest = .ok target) ∨
      (name ≠ "." ∧ name = ".." ∧ d.walk place.dropLast rest = .ok target) ∨
      (name ≠ "." ∧ name ≠ ".." ∧ name.utf8ByteSize ≤ 255 ∧
        (rest = [] ∨ d.lookup? (place ++ [name]) = some .directory) ∧
        d.walk (place ++ [name]) rest = .ok target) := by
  rw [walk] at h
  split_ifs at h with h1 h2 h3 h4
  · exact .inl ⟨by simpa using h1, h⟩
  · exact .inr (.inl ⟨by simpa using h1, by simpa using h2, h⟩)
  · refine .inr (.inr ⟨by simpa using h1, by simpa using h2, by omega, .inl ?_, ?_⟩)
    · simpa using h4
    · rw [List.isEmpty_iff.mp h4, walk]
      exact h
  · cases he : d.lookup? (place ++ [name]) with
    | none => rw [he] at h; cases h
    | some entry =>
      cases entry with
      | file content => rw [he] at h; cases h
      | directory =>
        rw [he] at h
        exact .inr (.inr ⟨by simpa using h1, by simpa using h2, by omega, .inr rfl, h⟩)

/-- One step of a walk, put together again. -/
theorem walk_cons_of_directory {d : Disk} {place : Place} {name : String} {rest : List String}
    (h1 : name ≠ ".") (h2 : name ≠ "..") (h3 : name.utf8ByteSize ≤ 255)
    (h4 : rest = [] ∨ d.lookup? (place ++ [name]) = some .directory) :
    d.walk place (name :: rest) = d.walk (place ++ [name]) rest := by
  rw [walk, if_neg (by simpa using h1), if_neg (by simpa using h2), if_neg (by omega)]
  rcases h4 with rfl | h4
  · rfl
  · cases rest with
    | nil => rfl
    | cons next rest => rw [if_neg (by simp), h4]

/-- A walk ends where its names lead. -/
theorem walk_eq_ok {d : Disk} {place target : Place} {names : List String}
    (h : d.walk place names = .ok target) : target = lead place names := by
  induction names generalizing place with
  | nil => exact (Except.ok.inj h).symm
  | cons name rest ih =>
    rcases walk_cons h with ⟨rfl, h⟩ | ⟨-, rfl, h⟩ | ⟨h1, h2, -, -, h⟩
    · exact ih h
    · exact ih h
    · rw [ih h, lead, if_neg (by simpa using h1), if_neg (by simpa using h2)]

/-- A path is located at its destination. -/
theorem locate_eq_ok {d : Disk} {path : String} {place : Place} (h : d.locate path = .ok place) :
    place = d.destination path := by
  rw [locate] at h
  split_ifs at h
  all_goals exact (walk_eq_ok h).trans (by simp [destination, *])

/-- What is found at a path stands at its destination. -/
theorem find_eq_ok {d : Disk} {path : String} {entry : Entry} :
    d.find path = .ok entry ↔
      d.locate path = .ok (d.destination path) ∧
        d.lookup? (d.destination path) = some entry := by
  constructor
  · intro h
    cases hl : d.locate path with
    | error fault => rw [find, hl] at h; cases h
    | ok place =>
      obtain rfl := locate_eq_ok hl
      rw [find, hl] at h
      refine ⟨rfl, ?_⟩
      cases he : d.lookup? (d.destination path) with
      | none => simp only [bind, Except.bind, he] at h; cases h
      | some other =>
        simp only [bind, Except.bind, he] at h
        rw [Except.ok.inj h]
  · rintro ⟨hl, he⟩
    simp only [find, hl, bind, Except.bind, he]
    rfl

/-- The content of a file that is found. -/
theorem content?_of_find {d : Disk} {path : String} {content : Bytes}
    (h : d.find path = .ok (.file content)) : d.content? path = some content := by
  rw [content?, (find_eq_ok.mp h).2]

/-- A text that is read is in a file that is found. -/
theorem find_of_readText {d : Disk} {path text : String} (h : d.readText path = .ok text) :
    ∃ content, d.find path = .ok (.file content) ∧ Text.utf8Decode? content = some text := by
  rw [readText, read] at h
  cases hr : d.refuses .read path with
  | some fault => rw [hr] at h; cases h
  | none =>
    rw [hr] at h
    cases hf : d.find path with
    | error fault => rw [hf] at h; cases h
    | ok entry =>
      rw [hf] at h
      cases entry with
      | directory => cases h
      | file content =>
        refine ⟨content, rfl, ?_⟩
        simp only [bind, Except.bind, pure, Except.pure] at h
        split at h
        · next ht => rw [ht, Except.ok.inj h]
        · cases h

/-! ## Further directories -/

/-- A disk has got further directories, where nothing was. -/
structure Widened (d d' : Disk) : Prop where
  /-- Relative paths start where they did. -/
  home : d'.home = d.home
  /-- Elsewhere everything is as it was. -/
  lookup : ∀ place, d'.lookup? place = d.lookup? place ∨
    d.lookup? place = none ∧ d'.lookup? place = some .directory

namespace Widened

variable {d d' d'' : Disk}

theorem refl (d : Disk) : Widened d d := ⟨rfl, fun _ => .inl rfl⟩

theorem trans (h : Widened d d') (h' : Widened d' d'') : Widened d d'' where
  home := h'.home.trans h.home
  lookup place := by
    rcases h.lookup place with h1 | ⟨h1, h2⟩ <;> rcases h'.lookup place with h3 | ⟨h3, h4⟩
    · exact .inl (h3.trans h1)
    · exact .inr ⟨h1 ▸ h3, h4⟩
    · exact .inr ⟨h1, h3.trans h2⟩
    · exact .inr ⟨h1, h4⟩

/-- What stood somewhere stands there still. -/
theorem lookup_of_some (h : Widened d d') {place : Place} {entry : Entry}
    (he : d.lookup? place = some entry) : d'.lookup? place = some entry := by
  rcases h.lookup place with h1 | ⟨h1, -⟩
  · rw [h1, he]
  · rw [he] at h1; cases h1

/-- A walk that arrived arrives still. -/
theorem walk (h : Widened d d') {names : List String} {place target : Place}
    (hw : d.walk place names = .ok target) : d'.walk place names = .ok target := by
  induction names generalizing place with
  | nil => exact hw
  | cons name rest ih =>
    rcases walk_cons hw with ⟨rfl, hw⟩ | ⟨-, rfl, hw⟩ | ⟨h1, h2, h3, h4, hw⟩
    · exact ih hw
    · exact ih hw
    · rw [walk_cons_of_directory h1 h2 h3 (h4.imp_right h.lookup_of_some)]
      exact ih hw

theorem destination (h : Widened d d') (path : String) :
    d'.destination path = d.destination path := by
  rw [Disk.destination, Disk.destination, h.home]

theorem locate (h : Widened d d') {path : String} {place : Place}
    (hl : d.locate path = .ok place) : d'.locate path = .ok place := by
  rw [Disk.locate] at hl ⊢
  split_ifs at hl ⊢
  · exact h.walk hl
  · rw [h.home]; exact h.walk hl

/-- What was found at a path is found there still. -/
theorem find (h : Widened d d') {path : String} {entry : Entry}
    (hf : d.find path = .ok entry) : d'.find path = .ok entry := by
  obtain ⟨hl, he⟩ := find_eq_ok.mp hf
  rw [find_eq_ok, h.destination]
  exact ⟨h.locate hl, h.lookup_of_some he⟩

/-- No file is lost, changed or made. -/
theorem content? (h : Widened d d') (path : String) : d'.content? path = d.content? path := by
  rw [Disk.content?, Disk.content?, h.destination]
  rcases h.lookup (d.destination path) with h1 | ⟨h1, h2⟩
  · rw [h1]
  · rw [h1, h2]

end Widened

/-- A directory where nothing was. -/
theorem widened_put {d : Disk} {place : Place} (h : d.lookup? place = none) :
    Widened d (d.put place .directory) where
  home := rfl
  lookup other := by
    by_cases hp : other = []
    · subst hp; exact .inl rfl
    · rw [lookup?_put _ _ _ _ hp]
      split_ifs with he
      · subst he; exact .inr ⟨h, rfl⟩
      · exact .inl rfl

theorem widened_of_makeAlong {d d' : Disk} {place : Place} {names : List String}
    (h : d.makeAlong place names = .ok d') : Widened d d' := by
  induction names generalizing d place with
  | nil => rw [← Except.ok.inj h]; exact .refl d
  | cons name rest ih =>
    rw [makeAlong] at h
    cases he : d.lookup? (place ++ [name]) with
    | none =>
      simp only [he] at h
      split_ifs at h
      · exact ih h
      · exact ih h
      · exact (widened_put he).trans (ih h)
    | some entry =>
      cases entry with
      | directory =>
        simp only [he] at h
        split_ifs at h
        all_goals exact ih h
      | file content =>
        simp only [he] at h
        split_ifs at h
        all_goals exact ih h

/-- Making a directory makes nothing but directories. -/
theorem widened_of_makeDirectories {d d' : Disk} {path : String}
    (h : d.makeDirectories path = .ok d') : Widened d d' := by
  rw [makeDirectories] at h
  cases hr : d.refuses .makeDirectories path with
  | some fault => rw [hr] at h; cases h
  | none => rw [hr] at h; exact widened_of_makeAlong h

/-! ## Written files -/

/-- Where a file can be written: at the destination of its path, if that is no directory. -/
theorem writable_eq_ok {d : Disk} {path : String} {place : Place}
    (h : d.writable path = .ok place) :
    d.locate path = .ok place ∧ d.lookup? place ≠ some .directory := by
  rw [writable] at h
  cases hr : d.refuses .write path with
  | some fault => rw [hr] at h; cases h
  | none =>
    cases hl : d.locate path with
    | error fault => rw [hr, hl] at h; cases h
    | ok target =>
      simp only [hr, hl, bind, Except.bind] at h
      split at h
      · cases h
      · next hd => cases h; exact ⟨rfl, hd⟩

/-- A walk does not go through a file, so it arrives also after the file is written anew. -/
theorem walk_put {d : Disk} {file : Place} (hf : d.lookup? file ≠ some .directory)
    (content : Bytes) {names : List String} {place target : Place}
    (h : d.walk place names = .ok target) :
    (d.put file (.file content)).walk place names = .ok target := by
  induction names generalizing place with
  | nil => exact h
  | cons name rest ih =>
    rcases walk_cons h with ⟨rfl, h⟩ | ⟨-, rfl, h⟩ | ⟨h1, h2, h3, h4, h⟩
    · exact ih h
    · exact ih h
    · rw [walk_cons_of_directory h1 h2 h3 (h4.imp_right fun h4 => ?_)]
      · exact ih h
      · rw [lookup?_put _ _ _ _ (by simp), if_neg, h4]
        rintro rfl
        exact hf h4

/-- A file that was written is found with what was written. -/
theorem find_of_write {d d' : Disk} {path : String} {content : Bytes}
    (h : d.write path content = .ok d') : d'.find path = .ok (.file content) := by
  cases hw : d.writable path with
  | error fault => rw [write, hw] at h; cases h
  | ok place =>
    rw [write, hw] at h
    obtain rfl := Except.ok.inj h
    obtain ⟨hl, hd⟩ := writable_eq_ok hw
    have hp : place ≠ [] := by rintro rfl; exact hd rfl
    have hd' : (d.put place (.file content)).destination path = place := (locate_eq_ok hl).symm
    rw [find_eq_ok, hd', lookup?_put _ _ _ _ hp, if_pos rfl]
    refine ⟨?_, rfl⟩
    rw [locate] at hl ⊢
    split_ifs at hl ⊢
    all_goals exact walk_put hd content hl

end ResourceCli.Disk
