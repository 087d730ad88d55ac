import ResourceCli.Proofs.Json.Layout
import ResourceCli.Shape.Json

/-!
# Typed data and the JSON values it is read from

Reading a text by a shape goes through the text and the shape at once.  What it comes to is said
here without the text: `Shape.dataOf` gives the data of a shape that a JSON value is.  It is
defined where every key of a record is one of its fields and no key of a record comes twice, which
is all that written data needs.

* `dataOf`: the data that a value is.
* `readJson_text`: the text of a value, in any layout and with anything after it, is read as that
  data, as long as the value is nested no deeper than the reader goes.
* `ofJson_text`: so is a whole text.
-/

namespace ResourceCli.Shape

open Json

/-- The shape of what is there, for a shape that allows for nothing. -/
def stripped : Shape → Shape
  | optional s => s
  | s => s

/-- Whether a record without the values that are missing is complete. -/
def isComplete (r : RecordName) (values : List (Option Tree)) : Bool :=
  ((r.fields.zip values).find? fun (f, v) => f.required && v.isNone).isNone

mutual

/-- The data of a shape that a value is. -/
def dataOf (shape : Shape) : Json → Option Tree
  | .null | .num _ => none
  | .bool b =>
    match shape.stripped with
    | flag => some (.flag b)
    | _ => none
  | .str s =>
    match shape.stripped with
    | text | oneOrMore => some (.text s)
    | _ => none
  | .arr items =>
    match shape.stripped with
    | list s => (dataOfItems s items).map .list
    | oneOrMore => (dataOfItems text items).map .list
    | _ => none
  | .obj members =>
    match shape.stripped with
    | table s => (dataOfEntries s [] members).map .table
    | record r => dataOfMembers r (r.fields.map fun _ => none) members
    | _ => none

/-- The data that the items of an array are. -/
def dataOfItems (s : Shape) : List Json → Option (List Tree)
  | [] => some []
  | v :: rest => (dataOf s v).bind fun t => (dataOfItems s rest).map (t :: ·)

/-- The entries that members are, put onto those before. -/
def dataOfEntries (s : Shape) (done : List (String × Tree)) :
    List (String × Json) → Option (List (String × Tree))
  | [] => some done
  | (k, v) :: rest => (dataOf s v).bind fun t => dataOfEntries s (Tree.insert k t done) rest

/-- The record that members are, with the values of the fields before. -/
def dataOfMembers (r : RecordName) (values : List (Option Tree)) :
    List (String × Json) → Option Tree
  | [] => if isComplete r values then some (.record values) else none
  | (k, v) :: rest =>
    match r.fieldIndex? k with
    | some i =>
      if (values[i]?.join).isSome then none
      else (dataOf ((r.fields[i]?.map Field.shape).getD .text) v).bind fun t =>
        dataOfMembers r (values.set i (some t)) rest
    | none => none

end

/-! ## Data has neither numbers nor nothing in it -/

mutual

theorem worded_of_dataOf : ∀ (v : Json) {shape : Shape} {t : Tree},
    dataOf shape v = some t → v.worded = true
  | .null, _, _, h => by
    rw [dataOf] at h
    cases h
  | .num _, _, _, h => by
    rw [dataOf] at h
    cases h
  | .bool _, _, _, _ => rfl
  | .str _, _, _, _ => rfl
  | .arr items, shape, t, h => by
    rw [worded]
    rw [dataOf] at h
    split at h
    · obtain ⟨ts, hts, -⟩ := Option.map_eq_some_iff.1 h
      exact worded_of_dataOfItems items hts
    · obtain ⟨ts, hts, -⟩ := Option.map_eq_some_iff.1 h
      exact worded_of_dataOfItems items hts
    · cases h
  | .obj members, shape, t, h => by
    rw [worded]
    rw [dataOf] at h
    split at h
    · obtain ⟨es, hes, -⟩ := Option.map_eq_some_iff.1 h
      exact worded_of_dataOfEntries members hes
    · exact worded_of_dataOfMembers members h
    · cases h

theorem worded_of_dataOfItems : ∀ (items : List Json) {s : Shape} {ts : List Tree},
    dataOfItems s items = some ts → wordedItems items = true
  | [], _, _, _ => rfl
  | v :: rest, s, ts, h => by
    rw [dataOfItems] at h
    obtain ⟨t, ht, h⟩ := Option.bind_eq_some_iff.1 h
    obtain ⟨ts', hts', -⟩ := Option.map_eq_some_iff.1 h
    rw [wordedItems, worded_of_dataOf v ht, worded_of_dataOfItems rest hts', Bool.and_self]

theorem worded_of_dataOfEntries : ∀ (members : List (String × Json)) {s : Shape}
    {done es : List (String × Tree)},
    dataOfEntries s done members = some es → wordedMembers members = true
  | [], _, _, _, _ => rfl
  | (k, v) :: rest, s, done, es, h => by
    rw [dataOfEntries] at h
    obtain ⟨t, ht, h⟩ := Option.bind_eq_some_iff.1 h
    rw [wordedMembers, worded_of_dataOf v ht, worded_of_dataOfEntries rest h, Bool.and_self]

theorem worded_of_dataOfMembers : ∀ (members : List (String × Json)) {r : RecordName}
    {values : List (Option Tree)} {t : Tree},
    dataOfMembers r values members = some t → wordedMembers members = true
  | [], _, _, _, _ => rfl
  | (k, v) :: rest, r, values, t, h => by
    rw [dataOfMembers] at h
    split at h
    · split at h
      · cases h
      · obtain ⟨t', ht', h⟩ := Option.bind_eq_some_iff.1 h
        rw [wordedMembers, worded_of_dataOf v ht', worded_of_dataOfMembers rest h, Bool.and_self]
    · cases h

end

/-! ## Reading scalars -/

section Scalars

variable {blanks : List Char} (hb : Spaces blanks) (fuel depth : Nat) (rest : List Char)

include hb

theorem valueAhead_spaces {c : Char} (hc : c ∈ opening) :
    valueAhead (blanks ++ c :: rest) = .ok c (c :: rest) := by
  rw [valueAhead, bind_of_ok (skipSpace_spaces hb (isSpace_of_mem_opening c hc))]
  rfl

theorem readJson_flag_text (b : Bool) :
    readJson (fuel + 1) depth .flag (blanks ++ (boolText b ++ rest)) = .ok (.flag b) rest := by
  rw [readJson]
  cases b with
  | true =>
    show (valueAhead >>= _) (blanks ++ 't' :: (['r', 'u', 'e'] ++ rest)) = _
    rw [bind_of_ok (valueAhead_spaces hb _ (by decide))]
    show (eat >>= fun _ => _) _ = _
    rw [eat_bind, bind_of_ok (word_append _ _)]
    rfl
  | false =>
    show (valueAhead >>= _) (blanks ++ 'f' :: (['a', 'l', 's', 'e'] ++ rest)) = _
    rw [bind_of_ok (valueAhead_spaces hb _ (by decide))]
    show (eat >>= fun _ => _) _ = _
    rw [eat_bind, bind_of_ok (word_append _ _)]
    rfl

theorem readJson_string_text (s : String) :
    readJson (fuel + 1) depth .text (blanks ++ (stringText s ++ rest)) = .ok (.text s) rest := by
  rw [readJson]
  show (valueAhead >>= _) (blanks ++ '"' :: (s.toList.flatMap escapeChar ++ ['"'] ++ rest)) = _
  rw [bind_of_ok (valueAhead_spaces hb _ (by decide)), List.append_assoc, List.singleton_append]
  rw [if_pos (beq_self_eq_true _), eat_bind, map_of_ok _ (string_escaped s rest)]

theorem value_string_text (s : String) :
    Json.value (fuel + 1) depth (blanks ++ (stringText s ++ rest)) = .ok (.str s) rest := by
  rw [Json.value]
  show (skipSpace >>= _) (blanks ++ '"' :: (s.toList.flatMap escapeChar ++ ['"'] ++ rest)) = _
  rw [bind_of_ok (skipSpace_spaces hb rfl), List.append_assoc, List.singleton_append]
  show (eat >>= fun _ => _) _ = _
  rw [eat_bind, bind_of_ok (string_escaped s rest)]
  rfl

end Scalars

/-! ## Reading between brackets -/

section Brackets

variable {blanks inner rest : List Char} (hb : Spaces blanks) {fuel depth : Nat}

include hb

theorem readJson_list_text {s : Shape} {ts : List Tree}
    (h : readItems fuel depth true s (inner ++ rest) = .ok ts (']' :: rest)) :
    readJson (fuel + 1) (depth + 1) (.list s) (blanks ++ ('[' :: inner ++ rest)) =
      .ok (.list ts) rest := by
  rw [readJson, List.cons_append, bind_of_ok (valueAhead_spaces hb _ (by decide)),
    if_pos (beq_self_eq_true _)]
  show (eat >>= fun _ => _) _ = _
  rw [eat_bind, Nat.add_sub_cancel,
    map_of_ok _ (placed_of_ok (closing_of_ok h (endArray_spaces .nil)))]

theorem readJson_table_text {s : Shape} {es : List (String × Tree)}
    (h : readEntries fuel depth true s [] (inner ++ rest) = .ok es ('}' :: rest)) :
    readJson (fuel + 1) (depth + 1) (.table s) (blanks ++ ('{' :: inner ++ rest)) =
      .ok (.table es) rest := by
  rw [readJson, List.cons_append, bind_of_ok (valueAhead_spaces hb _ (by decide)),
    if_pos (beq_self_eq_true _)]
  show (eat >>= fun _ => _) _ = _
  rw [eat_bind, Nat.add_sub_cancel,
    map_of_ok _ (placed_of_ok (closing_of_ok h (endObject_spaces .nil)))]

theorem readJson_record_text {r : RecordName} {t : Tree}
    (h : readMembers fuel depth true r (r.fields.map fun _ => none) (inner ++ rest) =
      .ok t ('}' :: rest)) :
    readJson (fuel + 1) (depth + 1) (.record r) (blanks ++ ('{' :: inner ++ rest)) =
      .ok t rest := by
  rw [readJson, List.cons_append, bind_of_ok (valueAhead_spaces hb _ (by decide))]
  show (eat >>= fun _ => _) _ = _
  rw [eat_bind, Nat.add_sub_cancel, placed_of_ok (closing_of_ok h (endObject_spaces .nil))]

end Brackets

/-! ## One text, or a list of texts -/

theorem exists_str_of_dataOf_text {v : Json} {t : Tree} (h : dataOf .text v = some t) :
    ∃ s, v = .str s ∧ t = .text s := by
  cases v with
  | str s =>
    rw [dataOf] at h
    exact ⟨s, rfl, (Option.some.inj h).symm⟩
  | null =>
    rw [dataOf] at h
    cases h
  | num n =>
    rw [dataOf] at h
    cases h
  | bool b =>
    rw [dataOf] at h
    cases h
  | arr items =>
    rw [dataOf] at h
    cases h
  | obj members =>
    rw [dataOf] at h
    cases h

theorem oneOrMore?_cons {s : String} {items : List Json} {ts : List Tree}
    (h : oneOrMore? (.arr items) = some (.list ts)) :
    oneOrMore? (.arr (.str s :: items)) = some (.list (.text s :: ts)) := by
  unfold oneOrMore? at h ⊢
  obtain ⟨ts', hts, heq⟩ := Option.map_eq_some_iff.1 h
  cases heq
  dsimp only
  rw [List.mapM_cons, hts]
  rfl

/-- An array that is data as a list of texts is data as one text or a list of texts. -/
theorem oneOrMore?_arr {items : List Json} {ts : List Tree}
    (h : dataOfItems .text items = some ts) : oneOrMore? (.arr items) = some (.list ts) := by
  induction items generalizing ts with
  | nil =>
    rw [dataOfItems] at h
    obtain rfl := Option.some.inj h
    rfl
  | cons v items ih =>
    rw [dataOfItems] at h
    obtain ⟨t, ht, h⟩ := Option.bind_eq_some_iff.1 h
    obtain ⟨ts, hts, rfl⟩ := Option.map_eq_some_iff.1 h
    obtain ⟨s, rfl, rfl⟩ := exists_str_of_dataOf_text ht
    exact oneOrMore?_cons (ih hts)

section Values

variable (l : Layout)

/-- An array of strings is read as a value. -/
theorem items_strings_text {items : List Json} {ts : List Tree}
    (h : dataOfItems .text items = some ts) (level : Nat) (first : Bool) (depth fuel : Nat)
    (hfuel : (l.items level first items).length < fuel) (rest : List Char) :
    Json.items fuel depth first (l.items level first items ++ rest) =
      .ok items (']' :: rest) := by
  induction items generalizing ts first fuel with
  | nil =>
    obtain ⟨fuel, rfl⟩ : ∃ k, fuel = k + 1 := ⟨fuel - 1, by omega⟩
    rw [Json.items, l.items_nil_append, bind_of_ok (hasItem_end first (l.spaces_end level first))]
    rfl
  | cons v items ih =>
    rw [dataOfItems] at h
    obtain ⟨t, ht, h⟩ := Option.bind_eq_some_iff.1 h
    obtain ⟨ts, hts, -⟩ := Option.map_eq_some_iff.1 h
    have hworded := worded_of_dataOf v ht
    have hv := l.length_text_pos (level + 1) hworded
    have hrest := l.length_items_pos level false items
    have hlen := l.length_items_cons level first v items
    obtain ⟨fuel, rfl⟩ : ∃ k, fuel = k + 1 + 1 := ⟨fuel - 2, by omega⟩
    obtain ⟨s, rfl, -⟩ := exists_str_of_dataOf_text ht
    rw [Json.items, l.items_cons_append]
    rw [bind_of_ok (hasItem_text l (level + 1) first hworded _), if_pos rfl]
    have hvalue := value_string_text .nil fuel depth (l.items level false items ++ rest) s
    rw [List.nil_append] at hvalue
    rw [Layout.text, bind_of_ok hvalue, bind_of_ok (ih hts false (fuel + 1) (by omega))]
    rfl

theorem value_strings_text {items : List Json} {ts : List Tree}
    (h : dataOfItems .text items = some ts) (level depth : Nat) {blanks : List Char}
    (hb : Spaces blanks) (fuel : Nat) (hfuel : (l.items level true items).length + 1 < fuel)
    (rest : List Char) :
    Json.value fuel (depth + 1) (blanks ++ (l.text level (.arr items) ++ rest)) =
      .ok (.arr items) rest := by
  obtain ⟨fuel, rfl⟩ : ∃ k, fuel = k + 1 := ⟨fuel - 1, by omega⟩
  have hitems := items_strings_text l h level true depth fuel (by omega) rest
  rw [Json.value, Layout.text, List.cons_append, bind_of_ok (skipSpace_spaces hb rfl)]
  show (eat >>= fun _ => _) _ = _
  rw [eat_bind, Nat.add_sub_cancel, map_of_ok _ (closing_of_ok hitems (endArray_spaces .nil))]

/-! ## Reading a value

A value, the option around it and its place among others take one step of fuel each, and a value
has at least one character.  So three steps for each character are enough. -/

theorem readJson_optional {c : Char} (hc : c ∈ opening) {blanks rest rest' : List Char}
    (hb : Spaces blanks) {fuel depth : Nat} {s : Shape} {t : Tree}
    (h : readJson fuel depth s (c :: rest) = .ok t rest') :
    readJson (fuel + 1) depth (.optional s) (blanks ++ c :: rest) = .ok t rest' := by
  rw [readJson, bind_of_ok (skipSpace_spaces hb (isSpace_of_mem_opening c hc))]
  simp only [opening, List.mem_cons, List.not_mem_nil, or_false] at hc
  rcases hc with rfl | rfl | rfl | rfl | rfl
  · exact h
  · exact h
  · exact h
  · exact h
  · exact h

/-- What is read as the shape of what is there is read as a shape that allows for nothing. -/
theorem readJson_of_stripped {v : Json} (hv : v.worded = true) {shape : Shape} {level depth : Nat}
    {t : Tree} {rest : List Char}
    (h : ∀ {fuel : Nat} {blanks : List Char}, Spaces blanks →
      3 * (l.text level v).length ≤ fuel + 1 →
      readJson fuel depth shape.stripped (blanks ++ (l.text level v ++ rest)) = .ok t rest)
    {blanks : List Char} (hb : Spaces blanks) (fuel : Nat)
    (hfuel : 3 * (l.text level v).length ≤ fuel) :
    readJson fuel depth shape (blanks ++ (l.text level v ++ rest)) = .ok t rest := by
  cases shape with
  | optional s =>
    have hpos := l.length_text_pos level hv
    obtain ⟨fuel, rfl⟩ : ∃ k, fuel = k + 1 := ⟨fuel - 1, by omega⟩
    have hread := h .nil hfuel
    obtain ⟨c, hc, cs, hcs⟩ := exists_text_eq_cons l level hv
    rw [List.nil_append, hcs] at hread
    rw [hcs]
    exact readJson_optional hc hb hread
  | text => exact h hb (by omega)
  | flag => exact h hb (by omega)
  | list s => exact h hb (by omega)
  | table s => exact h hb (by omega)
  | record r => exact h hb (by omega)
  | oneOrMore => exact h hb (by omega)

theorem complete_of_isComplete {r : RecordName} {values : List (Option Tree)}
    (h : isComplete r values = true) (rest : List Char) :
    complete r values rest = .ok (.record values) rest := by
  unfold isComplete at h
  rw [complete, Option.isNone_iff_eq_none.1 h]
  rfl

mutual

/-- A value is read as the data that it is, where its shape is not optional.  The induction is on
the value, along with its items and members; the white space before it, the text after it and the
fuel are left open. -/
theorem readJson_stripped_text : ∀ (v : Json) {shape : Shape} {t : Tree},
    dataOf shape v = some t → ∀ (level : Nat) {depth : Nat}, v.nesting ≤ depth →
    ∀ (rest : List Char) {fuel : Nat} {blanks : List Char}, Spaces blanks →
    3 * (l.text level v).length ≤ fuel + 1 →
    readJson fuel depth shape.stripped (blanks ++ (l.text level v ++ rest)) = .ok t rest
  | .null, _, _, h, _, _, _, _, _, _, _, _ => absurd (worded_of_dataOf _ h) Bool.false_ne_true
  | .num _, _, _, h, _, _, _, _, _, _, _, _ => absurd (worded_of_dataOf _ h) Bool.false_ne_true
  | .bool b, shape, t, h, level, depth, _, rest, fuel, blanks, hb, hfuel => by
    have hpos := l.length_text_pos level (worded_of_dataOf (.bool b) h)
    obtain ⟨fuel, rfl⟩ : ∃ k, fuel = k + 1 := ⟨fuel - 1, by omega⟩
    rw [dataOf] at h
    split at h
    · rename_i hs
      obtain rfl := Option.some.inj h
      rw [hs]
      exact readJson_flag_text hb fuel depth rest b
    · cases h
  | .str s, shape, t, h, level, depth, _, rest, fuel, blanks, hb, hfuel => by
    have hpos := l.length_text_pos level (worded_of_dataOf (.str s) h)
    obtain ⟨fuel, rfl⟩ : ∃ k, fuel = k + 1 + 1 := ⟨fuel - 2, by omega⟩
    rw [dataOf] at h
    split at h
    · rename_i hs
      obtain rfl := Option.some.inj h
      rw [hs]
      exact readJson_string_text hb (fuel + 1) depth rest s
    · rename_i hs
      obtain rfl := Option.some.inj h
      rw [hs, readJson, Layout.text, bind_of_ok (value_string_text hb fuel depth rest s)]
      rfl
    · cases h
  | .arr items, shape, t, h, level, depth, hdepth, rest, fuel, blanks, hb, hfuel => by
    rw [Layout.text, List.length_cons] at hfuel
    obtain ⟨fuel, rfl⟩ : ∃ k, fuel = k + 1 := ⟨fuel - 1, by omega⟩
    rw [nesting] at hdepth
    obtain ⟨depth, rfl⟩ : ∃ k, depth = k + 1 := ⟨depth - 1, by omega⟩
    rw [dataOf] at h
    split at h
    · rename_i s hs
      obtain ⟨ts, hts, rfl⟩ := Option.map_eq_some_iff.1 h
      rw [hs, Layout.text]
      exact readJson_list_text hb (readItems_text items hts level true
        (Nat.le_of_succ_le_succ hdepth) rest fuel (by omega))
    · rename_i hs
      obtain ⟨ts, hts, rfl⟩ := Option.map_eq_some_iff.1 h
      have hpos := l.length_items_pos level true items
      have hvalue := value_strings_text l hts level depth hb fuel (by omega) rest
      rw [hs, readJson, bind_of_ok hvalue, oneOrMore?_arr hts]
      rfl
    · cases h
  | .obj members, shape, t, h, level, depth, hdepth, rest, fuel, blanks, hb, hfuel => by
    rw [Layout.text, List.length_cons] at hfuel
    obtain ⟨fuel, rfl⟩ : ∃ k, fuel = k + 1 := ⟨fuel - 1, by omega⟩
    rw [nesting] at hdepth
    obtain ⟨depth, rfl⟩ : ∃ k, depth = k + 1 := ⟨depth - 1, by omega⟩
    rw [dataOf] at h
    split at h
    · rename_i s hs
      obtain ⟨es, hes, rfl⟩ := Option.map_eq_some_iff.1 h
      rw [hs, Layout.text]
      exact readJson_table_text hb (readEntries_text members hes level true
        (Nat.le_of_succ_le_succ hdepth) rest fuel (by omega))
    · rename_i r hs
      rw [hs, Layout.text]
      exact readJson_record_text hb (readMembers_text members h level true
        (Nat.le_of_succ_le_succ hdepth) rest fuel (by omega))
    · cases h

/-- The items of an array are read as the data that they are. -/
theorem readItems_text : ∀ (items : List Json) {s : Shape} {ts : List Tree},
    dataOfItems s items = some ts → ∀ (level : Nat) (first : Bool) {depth : Nat},
    nestingItems items ≤ depth → ∀ (rest : List Char) (fuel : Nat),
    3 * (l.items level first items).length + 1 ≤ fuel →
    readItems fuel depth first s (l.items level first items ++ rest) = .ok ts (']' :: rest)
  | [], s, ts, h, level, first, depth, _, rest, fuel, hfuel => by
    obtain ⟨fuel, rfl⟩ : ∃ k, fuel = k + 1 := ⟨fuel - 1, by omega⟩
    rw [dataOfItems] at h
    obtain rfl := Option.some.inj h
    rw [readItems, l.items_nil_append, bind_of_ok (hasItem_end first (l.spaces_end level first))]
    rfl
  | v :: items, s, ts, h, level, first, depth, hdepth, rest, fuel, hfuel => by
    rw [dataOfItems] at h
    obtain ⟨t, ht, h⟩ := Option.bind_eq_some_iff.1 h
    obtain ⟨ts, hts, rfl⟩ := Option.map_eq_some_iff.1 h
    have hnested := Nat.max_le.1 hdepth
    have hworded := worded_of_dataOf v ht
    have hv := l.length_text_pos (level + 1) hworded
    have hrest := l.length_items_pos level false items
    have hlen := l.length_items_cons level first v items
    obtain ⟨fuel, rfl⟩ : ∃ k, fuel = k + 1 := ⟨fuel - 1, by omega⟩
    have hvalue := readJson_of_stripped l hworded
      (readJson_stripped_text v ht (level + 1) hnested.1 (l.items level false items ++ rest)) .nil
      fuel (by omega)
    have hitems := readItems_text items hts level false hnested.2 rest
      fuel (by omega)
    rw [List.nil_append] at hvalue
    rw [readItems, l.items_cons_append, bind_of_ok (hasItem_text l (level + 1) first hworded _),
      if_pos rfl, bind_of_ok hvalue, bind_of_ok hitems]
    rfl

/-- The entries of a table are read as the data that they are. -/
theorem readEntries_text : ∀ (members : List (String × Json)) {s : Shape}
    {done es : List (String × Tree)},
    dataOfEntries s done members = some es → ∀ (level : Nat) (first : Bool) {depth : Nat},
    nestingMembers members ≤ depth → ∀ (rest : List Char) (fuel : Nat),
    3 * (l.members level first members).length + 1 ≤ fuel →
    readEntries fuel depth first s done (l.members level first members ++ rest) =
      .ok es ('}' :: rest)
  | [], s, done, es, h, level, first, depth, _, rest, fuel, hfuel => by
    obtain ⟨fuel, rfl⟩ : ∃ k, fuel = k + 1 := ⟨fuel - 1, by omega⟩
    rw [dataOfEntries] at h
    obtain rfl := Option.some.inj h
    rw [readEntries, l.members_nil_append,
      bind_of_ok (hasMember_end first (l.spaces_end level first))]
    rfl
  | (k, v) :: members, s, done, es, h, level, first, depth, hdepth, rest, fuel, hfuel => by
    rw [dataOfEntries] at h
    obtain ⟨t, ht, h⟩ := Option.bind_eq_some_iff.1 h
    have hnested := Nat.max_le.1 hdepth
    have hworded := worded_of_dataOf v ht
    have hv := l.length_text_pos (level + 1) hworded
    have hrest := l.length_members_pos level false members
    have hlen := l.length_members_cons level first k v members
    obtain ⟨fuel, rfl⟩ : ∃ k, fuel = k + 1 := ⟨fuel - 1, by omega⟩
    have hvalue := readJson_of_stripped l hworded
      (readJson_stripped_text v ht (level + 1) hnested.1 (l.members level false members ++ rest))
      l.spaces_afterColon fuel (by omega)
    have hmembers := readEntries_text members h level false hnested.2
      rest fuel (by omega)
    rw [readEntries, l.members_cons_append,
      bind_of_ok (hasMember_next first (l.spaces_gap (level + 1))), if_pos rfl,
      bind_of_ok (string_escaped k _), bind_of_ok colon_cons, bind_of_ok hvalue, hmembers]

/-- The members of a record are read as the data that they are. -/
theorem readMembers_text : ∀ (members : List (String × Json)) {r : RecordName}
    {values : List (Option Tree)} {t : Tree},
    dataOfMembers r values members = some t → ∀ (level : Nat) (first : Bool) {depth : Nat},
    nestingMembers members ≤ depth → ∀ (rest : List Char) (fuel : Nat),
    3 * (l.members level first members).length + 1 ≤ fuel →
    readMembers fuel depth first r values (l.members level first members ++ rest) =
      .ok t ('}' :: rest)
  | [], r, values, t, h, level, first, depth, _, rest, fuel, hfuel => by
    obtain ⟨fuel, rfl⟩ : ∃ k, fuel = k + 1 := ⟨fuel - 1, by omega⟩
    rw [dataOfMembers] at h
    split at h
    · rename_i hcomplete
      obtain rfl := Option.some.inj h
      rw [readMembers, l.members_nil_append,
        bind_of_ok (hasMember_end first (l.spaces_end level first))]
      exact complete_of_isComplete hcomplete _
    · cases h
  | (k, v) :: members, r, values, t, h, level, first, depth, hdepth, rest, fuel, hfuel => by
    rw [dataOfMembers] at h
    split at h
    · rename_i i hi
      split at h
      · cases h
      · rename_i hunset
        obtain ⟨t', ht', h⟩ := Option.bind_eq_some_iff.1 h
        have hnested := Nat.max_le.1 hdepth
        have hworded := worded_of_dataOf v ht'
        have hv := l.length_text_pos (level + 1) hworded
        have hrest := l.length_members_pos level false members
        have hlen := l.length_members_cons level first k v members
        obtain ⟨fuel, rfl⟩ : ∃ k, fuel = k + 1 := ⟨fuel - 1, by omega⟩
        have hvalue := readJson_of_stripped l hworded
          (readJson_stripped_text v ht' (level + 1) hnested.1
            (l.members level false members ++ rest))
          l.spaces_afterColon fuel (by omega)
        have hmembers := readMembers_text members h level false
          hnested.2 rest fuel (by omega)
        rw [readMembers, l.members_cons_append,
          bind_of_ok (hasMember_next first (l.spaces_gap (level + 1))), if_pos rfl,
          bind_of_ok (string_escaped k _), hi]
        dsimp only
        rw [if_neg hunset, bind_of_ok colon_cons, bind_of_ok hvalue, hmembers]
    · cases h

end

/-- **The text of a value** is read as the data that the value is. -/
theorem readJson_text {v : Json} {shape : Shape} {t : Tree} (h : dataOf shape v = some t)
    (level : Nat) {depth : Nat} (hdepth : v.nesting ≤ depth) (rest : List Char) (fuel : Nat)
    (hfuel : 3 * (l.text level v).length ≤ fuel) :
    readJson fuel depth shape (l.text level v ++ rest) = .ok t rest :=
  readJson_of_stripped l (worded_of_dataOf v h) (readJson_stripped_text l v h level hdepth rest)
    .nil fuel hfuel

/-- **A whole text** of a value is read as the data that the value is. -/
theorem ofJson_text {v : Json} {shape : Shape} {t : Tree} (h : dataOf shape v = some t)
    (hdepth : v.nesting ≤ maxDepth) : ofJson shape (String.ofList (l.text 0 v)) = .ok t := by
  have hread := readJson_text l h 0 hdepth [] (3 * (l.text 0 v).length + 64) (by omega)
  rw [List.append_nil] at hread
  exact readAll_of_ok hread

end Values

end ResourceCli.Shape
