import ResourceCli.Call.Basic
import ResourceCli.Proofs.Input.Record
import ResourceCli.Proofs.Json.Reading
import ResourceCli.Proofs.Number.Given

/-!
# What a value that is given stands for

Each kind of input says which JSON values its texts stand for (`Denotes`): the text itself, the
integer or the number that is written, a truth value, the items of a record, or the value that a
JSON text is a text of.  A value that is read stands for such a value, whatever the kind, except for
one case (`InputValue.denotes_iff`): infinity, not-a-number and decimals that are too large are read
as numbers, and `null` stands for them in what is sent along.
-/

namespace ResourceCli

open Number

/-- The words for a truth value; no word at all is one for true. -/
def flagWords (b : Bool) : List String :=
  if b then ["", "true", "TRUE", "True", "1"] else ["false", "FALSE", "False", "0"]

/-- The JSON values of its kind that a text stands for. -/
inductive Denotes : InputKind → String → Json → Prop
  /-- A text stands for itself. -/
  | text (raw : String) : Denotes .text raw (.str raw)
  /-- Digits with an optional sign stand for the integer that they are. -/
  | integer {raw : String} {negative : Bool} {ds : List Char}
    (hsigned : Signed negative (Text.trim raw).toList ds) (hne : ds ≠ [])
    (hdigits : ∀ c ∈ ds, c.isDigit = true) :
    Denotes .integer raw (.num (.int (if negative then -(ofDigits ds : Int) else ofDigits ds)))
  /-- A decimal stands for the double nearest to it. -/
  | number {raw : String} {negative : Bool} {w : Written} {x : Binary64}
    (hsigned : Signed negative (Text.trim raw).toList w.text)
    (hx : Binary64.ofDecimal negative w.digits w.power = some x) :
    Denotes .number raw (.num (.double x))
  /-- A word stands for a truth value. -/
  | flag {raw : String} {b : Bool} (hword : Text.trim raw ∈ flagWords b) :
    Denotes .flag raw (.bool b)
  /-- The empty text stands for the empty list. -/
  | empty : Denotes .list "" (.arr [])
  /-- A record stands for its items. -/
  | list {raw : String} {xs : List String} (hne : raw ≠ "") (hrecord : Input.IsRecord xs raw) :
    Denotes .list raw (.arr (xs.map .str))
  /-- A JSON text stands for what the value is held as that it is a text of. -/
  | json {raw : String} {t : Json.Source Json.Quoted} {v : Json}
    (htext : Json.IsText t raw.toList) (hheld : t.held? = some v) : Denotes .json raw v

namespace InputValue

variable {kind : InputKind} {raw : String} {value : InputValue}

theorem mem_flagWords {word : String} {b : Bool} (h : flagWord? word = some b) :
    word ∈ flagWords b := by
  unfold flagWord? at h
  split at h
  · rename_i htrue
    obtain rfl := Option.some.inj h
    simpa [flagWords] using htrue
  split at h
  · rename_i hfalse
    obtain rfl := Option.some.inj h
    simpa [flagWords] using hfalse
  · cases h

/-- **A value that is read** stands for a value of its kind, unless it is a number that no double
is. -/
theorem denotes_of_read (h : InputValue.read kind raw = .ok value)
    (hbounded : ¬ (kind = .number ∧ IsUnbounded (Text.trim raw))) :
    Denotes kind raw value.toJson := by
  cases kind with
  | text =>
    cases h
    exact .text raw
  | integer =>
    rw [InputValue.read] at h
    split at h
    · rename_i i hi
      cases h
      obtain ⟨negative, ds, hsigned, hne, hdigits, rfl⟩ := readInt64_sound hi
      exact .integer hsigned hne hdigits
    · cases h
  | number =>
    rw [InputValue.read] at h
    split at h
    · rename_i x hx
      cases h
      rcases readDouble?_cases hx with ⟨hunbounded, -⟩ | ⟨-, negative, w, y, hsigned, hy, rfl⟩
      · exact absurd ⟨rfl, hunbounded⟩ hbounded
      · exact .number hsigned hy
    · cases h
  | flag =>
    rw [InputValue.read] at h
    split at h
    · rename_i b hb
      cases h
      exact .flag (mem_flagWords hb)
    · cases h
  | list =>
    rw [InputValue.read] at h
    split at h
    · rename_i xs hxs
      cases h
      rcases Input.readRecord_ok_iff.1 hxs with ⟨rfl, rfl⟩ | ⟨hne, hrecord⟩
      · exact .empty
      · exact .list hne hrecord
    · cases h
  | json =>
    rw [InputValue.read] at h
    split at h
    · rename_i v hv
      cases h
      obtain ⟨t, htext, hheld⟩ := Json.exists_isText_of_read hv
      exact .json htext hheld
    · cases h

theorem readDouble?_of_read (h : InputValue.read .number raw = .ok value) :
    ∃ x, readDouble? (Text.trim raw) = some x ∧ value = .number x := by
  rw [InputValue.read] at h
  split at h
  · rename_i x hx
    exact ⟨x, hx, (Except.ok.inj h).symm⟩
  · cases h

/-- What is read as a number that no double is stands for `null`. -/
theorem toJson_of_isUnbounded (h : InputValue.read .number raw = .ok value)
    (hunbounded : IsUnbounded (Text.trim raw)) : value.toJson = .null := by
  obtain ⟨x, hx, rfl⟩ := readDouble?_of_read h
  cases x with
  | finite y => exact absurd rfl (hunbounded.ne_finite hx y)
  | infinite negative => rfl
  | nan => rfl

/-- Of the JSON texts, the texts of `null` stand for `null`. -/
theorem isText_null_of_held {t : Json.Source Json.Quoted} (h : t.held? = some .null) :
    t = .null := by
  cases t with
  | null => rfl
  | bool b | str q => cases h
  | num l =>
    obtain ⟨n, -, hn⟩ := Option.map_eq_some_iff.1 h
    cases hn
  | arr items =>
    obtain ⟨vs, -, hvs⟩ := Option.map_eq_some_iff.1 h
    cases hvs
  | obj members =>
    obtain ⟨ms, -, hms⟩ := Option.map_eq_some_iff.1 h
    cases hms

/-- Only the texts of `null` stand for `null`. -/
theorem isText_null_of_denotes (h : Denotes kind raw .null) :
    kind = .json ∧ Json.IsText .null raw.toList := by
  cases h with
  | json htext hheld =>
    rw [isText_null_of_held hheld] at htext
    exact ⟨rfl, htext⟩

/-- **A value that is given keeps its type**: what is read stands for a JSON value of its kind,
exactly unless it is a number that no double is, which is read nevertheless; then, and else only for
the JSON text of it, `null` is what is sent along. -/
theorem denotes_iff (h : InputValue.read kind raw = .ok value) :
    (Denotes kind raw value.toJson ↔ ¬ (kind = .number ∧ IsUnbounded (Text.trim raw))) ∧
    (value.toJson = .null ↔ kind = .number ∧ IsUnbounded (Text.trim raw) ∨
      kind = .json ∧ Json.IsText .null raw.toList) ∧
    ∀ (c : Call) (name : String), c.data = none → (name, value) ∈ c.fields →
      ∃ members, c.payload = .obj members ∧ (name, value.toJson) ∈ members := by
  have hdenotes : Denotes kind raw value.toJson ↔
      ¬ (kind = .number ∧ IsUnbounded (Text.trim raw)) := by
    refine ⟨?_, denotes_of_read h⟩
    rintro hdenotes ⟨rfl, hunbounded⟩
    rw [toJson_of_isUnbounded h hunbounded] at hdenotes
    cases (isText_null_of_denotes hdenotes).1
  refine ⟨hdenotes, ?_, ?_⟩
  · constructor
    · intro hnull
      by_cases hunbounded : kind = .number ∧ IsUnbounded (Text.trim raw)
      · exact .inl hunbounded
      · have hkept := hdenotes.2 hunbounded
        rw [hnull] at hkept
        exact .inr (isText_null_of_denotes hkept)
    · rintro (⟨rfl, hunbounded⟩ | ⟨rfl, htext⟩)
      · exact toJson_of_isUnbounded h hunbounded
      · rw [InputValue.read] at h
        split at h
        · rename_i v hv
          cases h
          exact (Option.some.inj (htext.held?_of_read hv)).symm
        · cases h
  · intro c name hdata hfield
    refine ⟨c.fields.map fun e => (e.1, e.2.toJson), ?_, ?_⟩
    · rw [Call.payload, hdata]
      rfl
    · exact List.mem_map_of_mem hfield

/-- A number with a fraction and an exponent, and spaces around it. -/
theorem denotes_decimal :
    InputValue.read .number " -2.5e1 " =
      .ok (.number (.finite ⟨true, 7036874417766400, -48⟩)) ∧
    Denotes .number " -2.5e1 " (.num (.double ⟨true, 7036874417766400, -48⟩)) := by
  have hread : InputValue.read .number " -2.5e1 " =
      .ok (.number (.finite ⟨true, 7036874417766400, -48⟩)) := by rfl
  refine ⟨hread, (denotes_iff hread).1.2 ?_⟩
  rintro ⟨-, hunbounded⟩
  obtain ⟨x, hx, hvalue⟩ := readDouble?_of_read hread
  exact hunbounded.ne_finite hx ⟨true, 7036874417766400, -48⟩ (InputValue.number.inj hvalue).symm

/-- Not-a-number is read as a number, and `null` is sent for it. -/
theorem nan_lost :
    ∃ value, InputValue.read .number "nan" = .ok value ∧ value.toJson = .null ∧
      ¬ Denotes .number "nan" value.toJson := by
  refine ⟨.number .nan, by rfl, rfl, fun h => ?_⟩
  cases (isText_null_of_denotes h).1

end InputValue

end ResourceCli
