import ResourceCli.Proofs.Json.Pieces

/-!
# The two texts of a JSON value as one

The compact text and the indented text of a value differ in the white space between its pieces and
in nothing else.  A `Layout` says what white space that is, and `Layout.text` is the text of a value
in a layout, written so that it is read piece by piece: what stands before an item tells the reader
that there is one, and what stands at the end of an array or object closes it.

* `compactChars_eq_text`, `prettyChars_eq_text`: both texts are texts in a layout.
* `nesting`: how many arrays and objects of a value stand inside each other.
* `worded`: that a value is made without numbers and without `null`.
* `exists_text_eq_cons`: how the text of such a value starts.
-/

namespace ResourceCli.Json

/-- The white space between the pieces of a text. -/
structure Layout where
  /-- What stands before an item, a member or a closing bracket at a level. -/
  gap : Nat → List Char
  /-- What stands after a colon. -/
  afterColon : List Char
  /-- It is white space. -/
  spaces_gap : ∀ level, Spaces (gap level)
  /-- It is white space. -/
  spaces_afterColon : Spaces afterColon

namespace Layout

/-- Nothing between the pieces. -/
def compact : Layout where
  gap _ := []
  afterColon := []
  spaces_gap _ := .nil
  spaces_afterColon := .nil

theorem spaces_indent (level : Nat) : Spaces (indent level) := by
  intro c hc
  rcases List.mem_cons.1 hc with rfl | hc
  · rfl
  · rw [List.eq_of_mem_replicate hc]
    rfl

/-- Each piece on a line of its own, indented by its level. -/
def indented : Layout where
  gap := indent
  afterColon := [' ']
  spaces_gap := spaces_indent
  spaces_afterColon c hc := by
    rw [List.mem_singleton.1 hc]
    rfl

variable (l : Layout)

mutual

/-- The text of a value that starts at a level of nesting. -/
def text (level : Nat) : Json → List Char
  | null => ['n', 'u', 'l', 'l']
  | bool b => boolText b
  | num n => n.text
  | str s => stringText s
  | arr vs => '[' :: items level true vs
  | obj ms => '{' :: members level true ms

/-- The items of an array up to and with its end; `first` says that none has come before. -/
def items (level : Nat) (first : Bool) : List Json → List Char
  | [] => (if first then [] else l.gap level) ++ [']']
  | v :: rest =>
    (if first then [] else [',']) ++
      (l.gap (level + 1) ++ (text (level + 1) v ++ items level false rest))

/-- The members of an object up to and with its end; `first` says that none has come before. -/
def members (level : Nat) (first : Bool) : List (String × Json) → List Char
  | [] => (if first then [] else l.gap level) ++ ['}']
  | (k, v) :: rest =>
    (if first then [] else [',']) ++
      (l.gap (level + 1) ++ (stringText k ++ ':' :: (l.afterColon ++
        (text (level + 1) v ++ members level false rest))))

end

theorem items_nil_append (level : Nat) (first : Bool) (rest : List Char) :
    l.items level first [] ++ rest = (if first then [] else l.gap level) ++ ']' :: rest := by
  rw [items, List.append_assoc, List.singleton_append]

theorem items_cons_append (level : Nat) (first : Bool) (v : Json) (vs : List Json)
    (rest : List Char) :
    l.items level first (v :: vs) ++ rest = (if first then [] else [',']) ++
      (l.gap (level + 1) ++ (l.text (level + 1) v ++ (l.items level false vs ++ rest))) := by
  rw [items]
  simp only [List.append_assoc]

theorem members_nil_append (level : Nat) (first : Bool) (rest : List Char) :
    l.members level first [] ++ rest = (if first then [] else l.gap level) ++ '}' :: rest := by
  rw [members, List.append_assoc, List.singleton_append]

theorem members_cons_append (level : Nat) (first : Bool) (k : String) (v : Json)
    (ms : List (String × Json)) (rest : List Char) :
    l.members level first ((k, v) :: ms) ++ rest = (if first then [] else [',']) ++
      (l.gap (level + 1) ++ '"' :: (k.toList.flatMap escapeChar ++ '"' :: ':' ::
        (l.afterColon ++ (l.text (level + 1) v ++ (l.members level false ms ++ rest))))) := by
  rw [members, stringText]
  simp only [List.append_assoc, List.cons_append, List.nil_append]

/-- What stands before an end is white space. -/
theorem spaces_end (level : Nat) (first : Bool) :
    Spaces (if first then [] else l.gap level) := by
  cases first with
  | true => exact .nil
  | false => exact l.spaces_gap level

theorem length_items_cons (level : Nat) (first : Bool) (v : Json) (vs : List Json) :
    (l.text (level + 1) v).length + (l.items level false vs).length ≤
      (l.items level first (v :: vs)).length := by
  rw [items]
  simp only [List.length_append]
  omega

theorem length_members_cons (level : Nat) (first : Bool) (k : String) (v : Json)
    (ms : List (String × Json)) :
    (l.text (level + 1) v).length + (l.members level false ms).length ≤
      (l.members level first ((k, v) :: ms)).length := by
  rw [members]
  simp only [List.length_append, List.length_cons]
  omega

theorem length_items_pos (level : Nat) (first : Bool) (vs : List Json) :
    0 < (l.items level first vs).length := by
  induction vs generalizing first with
  | nil =>
    rw [items, List.length_append, List.length_singleton]
    omega
  | cons v vs ih =>
    have hlen := l.length_items_cons level first v vs
    have hpos := ih false
    omega

theorem length_members_pos (level : Nat) (first : Bool) (ms : List (String × Json)) :
    0 < (l.members level first ms).length := by
  induction ms generalizing first with
  | nil =>
    rw [members, List.length_append, List.length_singleton]
    omega
  | cons m ms ih =>
    obtain ⟨k, v⟩ := m
    have hlen := l.length_members_cons level first k v ms
    have hpos := ih false
    omega

end Layout

/-! ## The compact text -/

theorem compactItems_cons_cons (v w : Json) (rest : List Json) :
    compactItems (v :: w :: rest) = v.compactChars ++ ',' :: compactItems (w :: rest) := by
  rw [compactItems]
  exact fun h => by cases h

theorem compactMembers_cons_cons (k : String) (v : Json) (m : String × Json)
    (rest : List (String × Json)) :
    compactMembers ((k, v) :: m :: rest) =
      stringText k ++ ':' :: (v.compactChars ++ ',' :: compactMembers (m :: rest)) := by
  rw [compactMembers]
  exact fun h => by cases h

mutual

/-- **The compact text** is a text in a layout. -/
theorem compactChars_eq_text : ∀ (v : Json) (level : Nat),
    v.compactChars = Layout.compact.text level v
  | null, _ => rfl
  | bool _, _ => rfl
  | num _, _ => rfl
  | str _, _ => rfl
  | arr items, level => by
    rw [compactChars, Layout.text, compactItems_eq_items items level true]
    cases items <;> rfl
  | obj members, level => by
    rw [compactChars, Layout.text, compactMembers_eq_members members level true]
    cases members <;> rfl

theorem compactItems_eq_items : ∀ (items : List Json) (level : Nat) (first : Bool),
    Layout.compact.items level first items =
      (if first || items.isEmpty then [] else [',']) ++ (compactItems items ++ [']'])
  | [], _, first => by cases first <;> rfl
  | [v], level, first => by
    rw [Layout.items, ← compactChars_eq_text v, compactItems]
    cases first <;> rfl
  | v :: w :: rest, level, first => by
    rw [compactItems_cons_cons, Layout.items, ← compactChars_eq_text v,
      compactItems_eq_items (w :: rest) level false]
    cases first <;> simp [Layout.compact]

theorem compactMembers_eq_members :
    ∀ (members : List (String × Json)) (level : Nat) (first : Bool),
    Layout.compact.members level first members =
      (if first || members.isEmpty then [] else [',']) ++ (compactMembers members ++ ['}'])
  | [], _, first => by cases first <;> rfl
  | [(k, v)], level, first => by
    rw [Layout.members, ← compactChars_eq_text v, compactMembers]
    cases first <;> simp [Layout.compact, Layout.members]
  | (k, v) :: m :: rest, level, first => by
    rw [compactMembers_cons_cons, Layout.members, ← compactChars_eq_text v,
      compactMembers_eq_members (m :: rest) level false]
    cases first <;> simp [Layout.compact]

end

/-! ## The indented text -/

theorem prettyItems_cons_cons (level : Nat) (v w : Json) (rest : List Json) :
    prettyItems level (v :: w :: rest) =
      indent level ++ (v.prettyChars level ++ ',' :: prettyItems level (w :: rest)) := by
  rw [prettyItems]
  exact fun h => by cases h

theorem prettyMembers_cons_cons (level : Nat) (k : String) (v : Json) (m : String × Json)
    (rest : List (String × Json)) :
    prettyMembers level ((k, v) :: m :: rest) =
      indent level ++ (stringText k ++ ':' :: ' ' ::
        (v.prettyChars level ++ ',' :: prettyMembers level (m :: rest))) := by
  rw [prettyMembers]
  exact fun h => by cases h

mutual

/-- **The indented text** is a text in a layout. -/
theorem prettyChars_eq_text : ∀ (v : Json) (level : Nat),
    v.prettyChars level = Layout.indented.text level v
  | null, _ => by rw [prettyChars, Layout.text]
  | bool _, _ => by rw [prettyChars, Layout.text]
  | num _, _ => by rw [prettyChars, Layout.text]
  | str _, _ => by rw [prettyChars, Layout.text]
  | arr [], _ => by
    rw [prettyChars, Layout.text, Layout.items]
    rfl
  | arr (v :: rest), level => by
    rw [Layout.text, prettyItems_eq_items (v :: rest) (List.cons_ne_nil v rest) level true,
      prettyChars]
    · rfl
    · exact fun h => by cases h
  | obj [], _ => by
    rw [prettyChars, Layout.text, Layout.members]
    rfl
  | obj (m :: rest), level => by
    rw [Layout.text, prettyMembers_eq_members (m :: rest) (List.cons_ne_nil m rest) level true,
      prettyChars]
    · rfl
    · exact fun h => by cases h

theorem prettyItems_eq_items : ∀ (items : List Json), items ≠ [] → ∀ (level : Nat) (first : Bool),
    Layout.indented.items level first items =
      (if first then [] else [',']) ++
        (prettyItems (level + 1) items ++ (indent level ++ [']']))
  | [], h, _, _ => absurd rfl h
  | [v], _, level, first => by
    rw [Layout.items, ← prettyChars_eq_text v, prettyItems]
    cases first <;> simp [Layout.indented, Layout.items]
  | v :: w :: rest, _, level, first => by
    rw [prettyItems_cons_cons, Layout.items, ← prettyChars_eq_text v,
      prettyItems_eq_items (w :: rest) (List.cons_ne_nil w rest) level false]
    cases first <;> simp [Layout.indented]

theorem prettyMembers_eq_members :
    ∀ (members : List (String × Json)), members ≠ [] → ∀ (level : Nat) (first : Bool),
    Layout.indented.members level first members =
      (if first then [] else [',']) ++
        (prettyMembers (level + 1) members ++ (indent level ++ ['}']))
  | [], h, _, _ => absurd rfl h
  | [(k, v)], _, level, first => by
    rw [Layout.members, ← prettyChars_eq_text v, prettyMembers]
    cases first <;> simp [Layout.indented, Layout.members]
  | (k, v) :: m :: rest, _, level, first => by
    rw [prettyMembers_cons_cons, Layout.members, ← prettyChars_eq_text v,
      prettyMembers_eq_members (m :: rest) (List.cons_ne_nil m rest) level false]
    cases first <;> simp [Layout.indented]

end

/-! ## How deep a value is nested -/

mutual

/-- How many arrays and objects of a value stand inside each other. -/
def nesting : Json → Nat
  | arr items => nestingItems items + 1
  | obj members => nestingMembers members + 1
  | _ => 0

/-- The nesting of the most deeply nested item. -/
def nestingItems : List Json → Nat
  | [] => 0
  | v :: rest => max (nesting v) (nestingItems rest)

/-- The nesting of the most deeply nested member. -/
def nestingMembers : List (String × Json) → Nat
  | [] => 0
  | (_, v) :: rest => max (nesting v) (nestingMembers rest)

end

/-! ## Values without numbers -/

mutual

/-- Whether a value has only strings, truth values, arrays and objects in it. -/
def worded : Json → Bool
  | null | num _ => false
  | bool _ | str _ => true
  | arr items => wordedItems items
  | obj members => wordedMembers members

/-- Whether all items have only those in them. -/
def wordedItems : List Json → Bool
  | [] => true
  | v :: rest => worded v && wordedItems rest

/-- Whether all members have only those in them. -/
def wordedMembers : List (String × Json) → Bool
  | [] => true
  | (_, v) :: rest => worded v && wordedMembers rest

end

/-- The characters that the text of such a value can start with. -/
def opening : List Char := ['t', 'f', '"', '[', '{']

/-- What holds of these five holds of the start of every text. -/
theorem forall_mem_opening {P : Char → Prop} (htrue : P 't') (hfalse : P 'f') (hstring : P '"')
    (harray : P '[') (hobject : P '{') : ∀ c ∈ opening, P c := by
  intro c hc
  simp only [opening, List.mem_cons, List.not_mem_nil, or_false] at hc
  rcases hc with rfl | rfl | rfl | rfl | rfl
  · exact htrue
  · exact hfalse
  · exact hstring
  · exact harray
  · exact hobject

theorem isSpace_of_mem_opening : ∀ c ∈ opening, isSpace c = false :=
  forall_mem_opening rfl rfl rfl rfl rfl

/-- **The text of a value** without numbers starts with one of five characters. -/
theorem exists_text_eq_cons (l : Layout) (level : Nat) {v : Json} (hv : v.worded = true) :
    ∃ c ∈ opening, ∃ cs, l.text level v = c :: cs := by
  cases v with
  | null => exact absurd hv Bool.false_ne_true
  | num n => exact absurd hv Bool.false_ne_true
  | bool b =>
    cases b with
    | true => exact ⟨'t', by decide, ['r', 'u', 'e'], rfl⟩
    | false => exact ⟨'f', by decide, ['a', 'l', 's', 'e'], rfl⟩
  | str s => exact ⟨'"', by decide, _, rfl⟩
  | arr items => exact ⟨'[', by decide, _, rfl⟩
  | obj members => exact ⟨'{', by decide, _, rfl⟩

theorem Layout.length_text_pos (l : Layout) (level : Nat) {v : Json} (hv : v.worded = true) :
    0 < (l.text level v).length := by
  obtain ⟨c, -, cs, hcs⟩ := exists_text_eq_cons l level hv
  rw [hcs, List.length_cons]
  exact Nat.succ_pos _

theorem ne_endArray_of_mem_opening : ∀ c ∈ opening, c ≠ ']' :=
  forall_mem_opening (by decide) (by decide) (by decide) (by decide) (by decide)

/-- The next item of an array is seen by the start of its text. -/
theorem hasItem_text (l : Layout) (level : Nat) (first : Bool) {v : Json} (hv : v.worded = true)
    (rest : List Char) :
    hasItem first ((if first then [] else [',']) ++
      (l.gap level ++ (l.text level v ++ rest))) = .ok true (l.text level v ++ rest) := by
  obtain ⟨c, hc, cs, hcs⟩ := exists_text_eq_cons l level hv
  rw [hcs]
  exact hasItem_next first (l.spaces_gap level) (isSpace_of_mem_opening c hc)
    (ne_endArray_of_mem_opening c hc)

end ResourceCli.Json
