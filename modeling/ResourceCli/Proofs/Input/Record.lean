import ResourceCli.Input.Record
import ResourceCli.Text.Split
import Mathlib.Data.List.Forall2

/-!
# Which texts are records

An item may be written as it is, if it holds no comma and no quote, and it may always be written
between quotes, with the quotes inside doubled (`Encodes`).  A record is such items with commas
between them (`IsRecord`).

The reader goes over the characters with a place in mind.  Both ways of writing an item bring it
from the start of an item to the same point, behind the item (`readItems_encoding`), and it comes to
that point in no other way (`exists_encoding_of_readItems`); from there on, it either ends or takes
a comma and starts again.  So records are read item by item.

* `readItems_intercalate`, `exists_intercalate_of_readItems`: what is read are the records.
* `readRecord_eq_ok_iff`: which texts are read, as what, and which are refused.
-/

namespace ResourceCli.Input

/-- The characters of a text between quotes: a quote is written twice. -/
def doubled (cs : List Char) : List Char :=
  cs.flatMap fun c => if c = '"' then ['"', '"'] else [c]

/-- The ways to write an item. -/
inductive Encodes : String → String → Prop
  /-- As it is, without commas and quotes. -/
  | plain {x : String} (hcomma : ',' ∉ x.toList) (hquote : '"' ∉ x.toList) : Encodes x x
  /-- Between quotes. -/
  | quoted (x : String) : Encodes x (String.ofList ('"' :: (doubled x.toList ++ ['"'])))

/-- The text is the items, in one of the ways to write each, with commas between them. -/
def IsRecord (xs : List String) (input : String) : Prop :=
  xs ≠ [] ∧ ∃ es, List.Forall₂ Encodes xs es ∧ input = Text.join "," es

/-! ## One item -/

/-- Nothing more of an item comes: the text ends, or a comma is next. -/
def Stops (cs : List Char) : Prop := ∀ c, cs.head? = some c → c = ','

section Items

variable {item cs rest : List Char} {xs : List String}

theorem stops_nil : Stops [] := fun _ h => by cases h

theorem stops_comma (cs : List Char) : Stops (',' :: cs) := fun _ h => (Option.some.inj h).symm

theorem readItems_closed_nil (item : List Char) :
    readItems .closed item [] = .ok [String.ofList item] := rfl

theorem readItems_closed_comma (item cs : List Char) :
    readItems .closed item (',' :: cs) = (readItems .start [] cs).map (String.ofList item :: ·) :=
  rfl

/-- Behind an item without quotes, reading goes on as behind a closing quote. -/
theorem readItems_plain_of_stops (item : List Char) (h : Stops rest) :
    readItems .plain item rest = readItems .closed item rest := by
  cases rest with
  | nil => rfl
  | cons c rest =>
    rw [h c rfl]
    rfl

theorem readItems_start_of_stops (h : Stops rest) :
    readItems .start [] rest = readItems .closed [] rest := by
  cases rest with
  | nil => rfl
  | cons c rest =>
    rw [h c rfl]
    rfl

theorem readItems_plain_append {w : List Char} (hcomma : ',' ∉ w) (hquote : '"' ∉ w)
    (item rest : List Char) :
    readItems .plain item (w ++ rest) = readItems .plain (item ++ w) rest := by
  induction w generalizing item with
  | nil => rw [List.nil_append, List.append_nil]
  | cons c w ih =>
    rw [List.mem_cons, not_or] at hcomma hquote
    simp [readItems, Ne.symm hcomma.1, Ne.symm hquote.1, ih hcomma.2 hquote.2]

theorem readItems_quoted_append (w item rest : List Char) :
    readItems .quoted item (doubled w ++ '"' :: rest) = readItems .closed (item ++ w) rest := by
  induction w generalizing item with
  | nil =>
    rw [List.append_nil]
    rfl
  | cons c w ih =>
    have hsplit : doubled (c :: w) = (if c = '"' then ['"', '"'] else [c]) ++ doubled w := rfl
    rw [hsplit, List.append_cons item c w, ← ih]
    by_cases hc : c = '"'
    · simp [hc, readItems]
    · simp [hc, readItems]

/-- **Each way to write an item** leads behind the item. -/
theorem readItems_encoding {x e : String} (he : Encodes x e) (h : Stops rest) :
    readItems .start [] (e.toList ++ rest) = readItems .closed x.toList rest := by
  cases he with
  | plain hcomma hquote =>
    cases hx : x.toList with
    | nil => exact readItems_start_of_stops h
    | cons c w =>
      rw [hx] at hcomma hquote
      have hplain := readItems_plain_append (fun hm => hcomma (.tail _ hm))
        (fun hm => hquote (.tail _ hm)) [c] rest
      rw [List.mem_cons, not_or] at hcomma hquote
      rw [← List.singleton_append, ← readItems_plain_of_stops _ h, ← hplain]
      simp [readItems, Ne.symm hcomma.1, Ne.symm hquote.1]
  | quoted =>
    rw [String.toList_ofList, List.cons_append, List.append_assoc, List.singleton_append]
    exact readItems_quoted_append x.toList [] rest

/-! ## Back from what is read -/

theorem exists_plain_of_readItems (h : readItems .plain item cs = .ok xs) :
    ∃ w rest, cs = w ++ rest ∧ ',' ∉ w ∧ '"' ∉ w ∧ Stops rest ∧
      readItems .closed (item ++ w) rest = .ok xs := by
  induction cs generalizing item with
  | nil =>
    refine ⟨[], [], rfl, List.not_mem_nil, List.not_mem_nil, stops_nil, ?_⟩
    rwa [List.append_nil, ← readItems_plain_of_stops item stops_nil]
  | cons c cs ih =>
    by_cases hquote : c = '"'
    · subst hquote
      cases h
    by_cases hcomma : c = ','
    · subst hcomma
      refine ⟨[], ',' :: cs, rfl, List.not_mem_nil, List.not_mem_nil, stops_comma cs, ?_⟩
      rwa [List.append_nil, ← readItems_plain_of_stops item (stops_comma cs)]
    · have hnext : readItems .plain (item ++ [c]) cs = .ok xs := by
        simpa [readItems, hquote, hcomma] using h
      obtain ⟨w, rest, rfl, hw, hw', hrest, hread⟩ := ih hnext
      refine ⟨c :: w, rest, rfl, ?_, ?_, hrest, by simpa using hread⟩
      · simp [hw, Ne.symm hcomma]
      · simp [hw', Ne.symm hquote]

theorem doubled_cons_quote (w : List Char) : doubled ('"' :: w) = '"' :: '"' :: doubled w := rfl

theorem doubled_cons {c : Char} (hc : c ≠ '"') (w : List Char) :
    doubled (c :: w) = c :: doubled w := by
  simp [doubled, hc]

/-- Two quotes in a quoted item are one of its characters, so the recursion takes one or two
characters at a time. -/
theorem exists_quoted_of_readItems : ∀ {cs item : List Char},
    readItems .quoted item cs = .ok xs →
      ∃ w rest, cs = doubled w ++ '"' :: rest ∧ Stops rest ∧
        readItems .closed (item ++ w) rest = .ok xs
  | [], _, h => by cases h
  | c :: cs, item, h => by
    by_cases hc : c = '"'
    · subst hc
      have hclosed : readItems .closed item cs = .ok xs := h
      match cs, hclosed with
      | [], hclosed => exact ⟨[], [], rfl, stops_nil, by simpa using hclosed⟩
      | d :: cs, hclosed =>
        by_cases hd : d = '"'
        · subst hd
          have hnext : readItems .quoted (item ++ ['"']) cs = .ok xs := hclosed
          obtain ⟨w, rest, rfl, hrest, hread⟩ := exists_quoted_of_readItems hnext
          exact ⟨'"' :: w, rest, by rw [doubled_cons_quote]; rfl, hrest, by simpa using hread⟩
        · have hcomma : d = ',' := by
            by_contra hne
            simp [readItems, hd, hne] at hclosed
          subst hcomma
          exact ⟨[], ',' :: cs, rfl, stops_comma cs, by simpa using hclosed⟩
    · have hnext : readItems .quoted (item ++ [c]) cs = .ok xs := by
        simpa [readItems, hc] using h
      obtain ⟨w, rest, rfl, hrest, hread⟩ := exists_quoted_of_readItems hnext
      exact ⟨c :: w, rest, by rw [doubled_cons hc]; rfl, hrest, by simpa using hread⟩

/-- **There is no other way** to come behind an item. -/
theorem exists_encoding_of_readItems (h : readItems .start [] cs = .ok xs) :
    ∃ x e rest, Encodes x e ∧ cs = e.toList ++ rest ∧ Stops rest ∧
      readItems .closed x.toList rest = .ok xs := by
  have hempty : Encodes "" "" := .plain List.not_mem_nil List.not_mem_nil
  cases cs with
  | nil => exact ⟨"", "", [], hempty, rfl, stops_nil, h⟩
  | cons c cs =>
    by_cases hquote : c = '"'
    · subst hquote
      have hquoted : readItems .quoted [] cs = .ok xs := h
      obtain ⟨w, rest, rfl, hrest, hread⟩ := exists_quoted_of_readItems hquoted
      refine ⟨String.ofList w, _, rest, .quoted _, ?_, hrest, ?_⟩
      · simp
      · rwa [String.toList_ofList]
    by_cases hcomma : c = ','
    · subst hcomma
      exact ⟨"", "", ',' :: cs, hempty, rfl, stops_comma cs, h⟩
    · have hnext : readItems .plain [c] cs = .ok xs := by
        simpa [readItems, hquote, hcomma] using h
      obtain ⟨w, rest, rfl, hw, hw', hrest, hread⟩ := exists_plain_of_readItems hnext
      refine ⟨String.ofList (c :: w), String.ofList (c :: w), rest, .plain ?_ ?_, ?_, hrest, ?_⟩
      · simp [hw, Ne.symm hcomma]
      · simp [hw', Ne.symm hquote]
      · simp
      · rwa [String.toList_ofList]

end Items

/-! ## All items -/

theorem toList_join_cons_cons (e e' : String) (es : List String) :
    (Text.join "," (e :: e' :: es)).toList =
      e.toList ++ ',' :: (Text.join "," (e' :: es)).toList := by
  simp [Text.join, String.toList_intercalate]

/-- The items of a record are read, in order. -/
theorem readItems_join {xs es : List String} (h : List.Forall₂ Encodes xs es) (hne : xs ≠ []) :
    readItems .start [] (Text.join "," es).toList = .ok xs := by
  induction h with
  | nil => exact absurd rfl hne
  | @cons x e xs es he hes ih =>
    cases hes with
    | nil =>
      have hone := readItems_encoding he stops_nil
      rw [List.append_nil] at hone
      rw [show Text.join "," [e] = e from String.intercalate_singleton, hone,
        readItems_closed_nil, String.ofList_toList]
    | cons he' hes =>
      rw [toList_join_cons_cons, readItems_encoding he (stops_comma _), readItems_closed_comma,
        ih (List.cons_ne_nil _ _), String.ofList_toList]
      rfl

/-- What is read is a record of what was read. -/
theorem exists_join_of_readItems (cs : List Char) : ∀ {xs : List String},
    readItems .start [] cs = .ok xs →
      xs ≠ [] ∧ ∃ es, List.Forall₂ Encodes xs es ∧ cs = (Text.join "," es).toList := by
  induction hn : cs.length using Nat.strongRecOn generalizing cs with
  | _ n ih =>
  intro xs h
  obtain ⟨x, e, rest, he, rfl, hrest, hread⟩ := exists_encoding_of_readItems h
  cases rest with
  | nil =>
    rw [readItems_closed_nil, String.ofList_toList, Except.ok.injEq] at hread
    rw [← hread]
    refine ⟨List.cons_ne_nil _ _, [e], .cons he .nil, ?_⟩
    rw [List.append_nil, show Text.join "," [e] = e from String.intercalate_singleton]
  | cons c rest =>
    obtain rfl := hrest c rfl
    rw [readItems_closed_comma, String.ofList_toList] at hread
    cases hys : readItems .start [] rest with
    | error fault =>
      rw [hys] at hread
      cases hread
    | ok ys =>
      rw [hys] at hread
      have hshort : rest.length < n := by
        rw [← hn, List.length_append, List.length_cons]
        omega
      obtain ⟨hne, es, hes, rfl⟩ := ih rest.length hshort rest rfl hys
      rw [← show x :: ys = xs from Except.ok.inj hread]
      refine ⟨List.cons_ne_nil _ _, e :: es, .cons he hes, ?_⟩
      obtain ⟨e', es, rfl⟩ : ∃ e' es', es = e' :: es' := by
        cases hes with
        | nil => exact absurd rfl hne
        | cons _ _ => exact ⟨_, _, rfl⟩
      rw [toList_join_cons_cons]

theorem readItems_eq_ok_iff {input : String} {xs : List String} :
    readItems .start [] input.toList = .ok xs ↔ IsRecord xs input := by
  constructor
  · intro h
    obtain ⟨hne, es, hes, hinput⟩ := exists_join_of_readItems input.toList h
    exact ⟨hne, es, hes, String.toList_inj.1 hinput⟩
  · rintro ⟨hne, es, hes, rfl⟩
    exact readItems_join hes hne

/-- The empty text is the record of the empty text alone. -/
theorem isRecord_empty_iff {xs : List String} : IsRecord xs "" ↔ xs = [""] := by
  rw [← readItems_eq_ok_iff]
  constructor
  · intro h
    exact (Except.ok.inj h).symm
  · rintro rfl
    rfl

theorem readRecord_ok_iff {input : String} {xs : List String} :
    readRecord input = .ok xs ↔ input = "" ∧ xs = [] ∨ input ≠ "" ∧ IsRecord xs input := by
  unfold readRecord
  by_cases hempty : input = ""
  · simp [hempty, eq_comm]
  · simp [hempty, readItems_eq_ok_iff]

/-- **Exactly the records are read**, each as its items: a text is read as a list if it is empty
and the list is, or if it is not empty and a record of the list; the empty text is a record too, but
of the list of the empty text alone; and every text is refused that is neither empty nor a
record. -/
theorem readRecord_eq_ok_iff (input : String) :
    (∀ xs, readRecord input = .ok xs ↔
      input = "" ∧ xs = [] ∨ input ≠ "" ∧ IsRecord xs input) ∧
    (∀ xs, IsRecord xs "" ↔ xs = [""]) ∧
    ((∃ fault, readRecord input = .error fault) ↔ input ≠ "" ∧ ∀ xs, ¬ IsRecord xs input) := by
  refine ⟨fun xs => readRecord_ok_iff, fun xs => isRecord_empty_iff, ?_⟩
  constructor
  · rintro ⟨fault, hfault⟩
    have hnone : ∀ xs, readRecord input ≠ .ok xs := by
      intro xs h
      cases hfault.symm.trans h
    simp only [Ne, readRecord_ok_iff, not_or, not_and] at hnone
    have hne : input ≠ "" := fun h => (hnone []).1 h rfl
    exact ⟨hne, fun xs => (hnone xs).2 hne⟩
  · rintro ⟨hne, hno⟩
    cases h : readRecord input with
    | error fault => exact ⟨fault, rfl⟩
    | ok xs =>
      rcases readRecord_ok_iff.1 h with ⟨hempty, -⟩ | ⟨-, hrecord⟩
      · exact absurd hempty hne
      · exact absurd hrecord (hno xs)

/-- An item with a comma in quotes, an item without quotes and an item of quotes alone. -/
example : readRecord "\"tag1,\",tag2,\"\"\"\"" = .ok ["tag1,", "tag2", "\""] := by decide

end ResourceCli.Input
