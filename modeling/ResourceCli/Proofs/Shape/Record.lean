import ResourceCli.Document.Typed
import ResourceCli.Document.Written
import ResourceCli.Proofs.Shape.Value
import ResourceCli.Proofs.Table

/-!
# Records, lists and tables as they are written

A record is written field by field: a field that is there is a member under its key, and one that
is missing leaves nothing behind.  Reading such members gives the values of the fields in order,
whatever record it is, because its keys are distinct.

* `FieldsData`: what the fields of a record are written as, and the data they are.
* `dataOf_record`: the members of a record are the record of those data.
* `Reads`, `FieldReads`: that what is written of something, or under a field, is taken back.
* `reads_list`, `reads_table`, `Reads.record`: that lists, tables whose names are distinct, and
  records are taken back if their parts are.
-/

namespace ResourceCli.Shape

open Json ResourceCli.Tree

/-! ## Members of fields -/

/-- The member of a field, if it is there. -/
def fieldMember (f : Field) : Option Json → List (String × Json)
  | none => []
  | some v => [(f.key, v)]

/-- The members of fields in order. -/
def fieldMembers : List Field → List (Option Json) → List (String × Json)
  | f :: fs, v :: vs => fieldMember f v ++ fieldMembers fs vs
  | _, _ => []

/-- What a field is written as, and the data that it is. -/
inductive FieldData (f : Field) : Option Json → Option Tree → Prop
  /-- The field is there. -/
  | there {v : Json} {t : Tree} (h : dataOf f.shape v = some t) : FieldData f (some v) (some t)
  /-- The field is missing, and may be. -/
  | missing (h : f.required = false) : FieldData f none none

/-- What fields are written as, and the data that they are. -/
inductive FieldsData : List Field → List (Option Json) → List (Option Tree) → Prop
  /-- No fields. -/
  | nil : FieldsData [] [] []
  /-- A field before others. -/
  | cons {f : Field} {v : Option Json} {u : Option Tree} {fs : List Field}
    {vs : List (Option Json)} {us : List (Option Tree)} (h : FieldData f v u)
    (hs : FieldsData fs vs us) : FieldsData (f :: fs) (v :: vs) (u :: us)

/-- No required field is missing. -/
theorem FieldsData.find?_eq_none {fs : List Field} {vs : List (Option Json)}
    {us : List (Option Tree)} (h : FieldsData fs vs us) :
    (fs.zip us).find? (fun (f, u) => f.required && u.isNone) = none := by
  induction h with
  | nil => rfl
  | cons h hs ih =>
    rw [List.zip_cons_cons, List.find?_cons_of_neg, ih]
    cases h with
    | there h => simp
    | missing h => simp [h]

/-! ## The keys of a record are distinct -/

theorem nodup_fields (r : RecordName) : (r.fields.map Field.key).Nodup := by
  cases r <;> decide

/-- A key is found where its field stands. -/
theorem findIdx?_key {fs gs : List Field} {f : Field}
    (h : ((fs ++ f :: gs).map Field.key).Nodup) :
    (fs ++ f :: gs).findIdx? (·.key == f.key) = some fs.length := by
  have hbefore : fs.findIdx? (·.key == f.key) = none := by
    rw [List.findIdx?_eq_none_iff]
    intro g hg
    rw [List.map_append, List.map_cons, List.nodup_append] at h
    have hne := h.2.2 g.key (List.mem_map_of_mem hg) f.key List.mem_cons_self
    exact beq_eq_false_iff_ne.2 hne
  rw [List.findIdx?_append, hbefore, List.findIdx?_cons, if_pos (beq_self_eq_true f.key)]
  simp

/-- The members of the fields after some others set the values after theirs.  The induction is on
those fields; `done` holds the values of the fields before them, and all later values are unset. -/
theorem dataOfMembers_fields {r : RecordName} {fs : List Field} {vs : List (Option Json)}
    {us : List (Option Tree)} (h : FieldsData fs vs us) (before : List Field)
    (done : List (Option Tree)) (hr : r.fields = before ++ fs)
    (hdone : done.length = before.length) :
    dataOfMembers r (done ++ fs.map fun _ => none) (fieldMembers fs vs) =
      dataOfMembers r (done ++ us) [] := by
  induction h generalizing before done with
  | nil => rfl
  | @cons f v u fs vs us h hs ih =>
    have hnext : r.fields = (before ++ [f]) ++ fs := by
      rw [hr, List.append_assoc, List.singleton_append]
    have hlen : (done ++ [u]).length = (before ++ [f]).length := by
      rw [List.length_append, List.length_append, hdone]
      rfl
    have hlater := ih (before ++ [f]) (done ++ [u]) hnext hlen
    rw [List.append_assoc, List.singleton_append, List.append_assoc, List.singleton_append]
      at hlater
    rw [← hlater, fieldMembers, List.map_cons]
    cases h with
    | missing h => rfl
    | @there v t h =>
      have hindex : r.fieldIndex? f.key = some done.length := by
        have hnodup := nodup_fields r
        rw [hr] at hnodup
        unfold RecordName.fieldIndex?
        rw [hr, hdone, findIdx?_key hnodup]
      have hfield : r.fields[done.length]? = some f := by
        rw [hr, hdone, List.getElem?_append_right (Nat.le_refl _), Nat.sub_self]
        rfl
      have hunset : (done ++ none :: fs.map fun _ => (none : Option Tree))[done.length]? =
          some none := by
        rw [List.getElem?_append_right (Nat.le_refl _), Nat.sub_self]
        rfl
      rw [fieldMember, List.singleton_append, dataOfMembers, hindex]
      dsimp only
      rw [hunset, if_neg (by simp), hfield]
      show (dataOf f.shape v).bind _ = _
      rw [h, Option.bind_some, List.set_append_right _ _ (Nat.le_refl _), Nat.sub_self]
      rfl

/-- **A record** whose fields are written in order is read as the record of their data. -/
theorem dataOf_record {r : RecordName} {vs : List (Option Json)} {us : List (Option Tree)}
    (h : FieldsData r.fields vs us) :
    dataOf (.record r) (.obj (fieldMembers r.fields vs)) = some (.record us) := by
  have hcomplete : isComplete r us = true := by
    unfold isComplete
    rw [h.find?_eq_none]
    rfl
  have hmembers := dataOfMembers_fields h (r := r) [] [] rfl rfl
  rw [List.nil_append, List.nil_append] at hmembers
  rw [dataOf]
  show dataOfMembers r _ _ = _
  rw [hmembers, dataOfMembers, if_pos hcomplete]

theorem exists_record_of_dataOfMembers {r : RecordName} {members : List (String × Json)}
    {values : List (Option Tree)} {t : Tree} (h : dataOfMembers r values members = some t) :
    ∃ us, t = .record us := by
  induction members generalizing values with
  | nil =>
    rw [dataOfMembers] at h
    split at h
    · exact ⟨values, (Option.some.inj h).symm⟩
    · cases h
  | cons m members ih =>
    rw [dataOfMembers] at h
    split at h
    · split at h
      · cases h
      · obtain ⟨t', -, h⟩ := Option.bind_eq_some_iff.1 h
        exact ih h
    · cases h

/-- The data of a record are a record, and so there is something. -/
theorem exists_record_of_dataOf {r : RecordName} {v : Json} {t : Tree}
    (h : dataOf (.record r) v = some t) : ∃ us, t = .record us := by
  cases v with
  | obj members =>
    rw [dataOf] at h
    exact exists_record_of_dataOfMembers h
  | null =>
    rw [dataOf] at h
    cases h
  | num n =>
    rw [dataOf] at h
    cases h
  | bool b =>
    rw [dataOf] at h
    cases h
  | str s =>
    rw [dataOf] at h
    cases h
  | arr items =>
    rw [dataOf] at h
    cases h

theorem dataOf_optional_record (r : RecordName) (v : Json) :
    dataOf (.optional (.record r)) v = dataOf (.record r) v := by
  cases v <;> rfl

/-! ## What is taken back from its data -/

section Reading

variable {α β : Type}

/-- What is written of `a` by `f` is taken back by `g` from the data that it is. -/
def Reads (s : Shape) (f : α → Json) (g : Tree → α) (a : α) : Prop :=
  ∃ t, dataOf s (f a) = some t ∧ g t = a

/-- What is written under a field is taken back by `g` from the data that it is. -/
def FieldReads (f : Field) (v : Option Json) (g : Option Tree → β) (b : β) : Prop :=
  ∃ u, FieldData f v u ∧ g u = b

variable {s : Shape} {f : α → Json} {g : Tree → α}

theorem Reads.record {r : RecordName} {a : α} {vs : List (Option Json)} {us : List (Option Tree)}
    (h : FieldsData r.fields vs us) (hf : f a = .obj (fieldMembers r.fields vs))
    (hg : g (.record us) = a) : Reads (.record r) f g a := by
  refine ⟨.record us, ?_, hg⟩
  rw [hf]
  exact dataOf_record h

/-- A list is taken back item by item. -/
theorem reads_list {as : List α} (h : ∀ a ∈ as, Reads s f g a) :
    ∃ ts, dataOf (.list s) (.arr (as.map f)) = some (.list ts) ∧ ts.map g = as := by
  have hitems : ∃ ts, dataOfItems s (as.map f) = some ts ∧ ts.map g = as := by
    induction as with
    | nil => exact ⟨[], rfl, rfl⟩
    | cons a as ih =>
      obtain ⟨t, ht, hg⟩ := h a List.mem_cons_self
      obtain ⟨ts, hts, hgs⟩ := ih fun b hb => h b (List.mem_cons_of_mem _ hb)
      refine ⟨t :: ts, ?_, ?_⟩
      · rw [List.map_cons, dataOfItems, ht, Option.bind_some, hts, Option.map_some]
      · rw [List.map_cons, hg, hgs]
  obtain ⟨ts, hts, hgs⟩ := hitems
  refine ⟨ts, ?_, hgs⟩
  rw [dataOf]
  show (dataOfItems s (as.map f)).map Tree.list = _
  rw [hts, Option.map_some]

/-- The entries of a table are taken back one by one, after others of other names. -/
theorem dataOfEntries_map {entries : List (String × α)} (h : ∀ e ∈ entries, Reads s f g e.2)
    (done : List (String × Tree)) (hn : (keys done ++ keys entries).Nodup) :
    ∃ es, dataOfEntries s done (entries.map fun e => (e.1, f e.2)) = some (done ++ es) ∧
      es.map (fun e => (e.1, g e.2)) = entries := by
  induction entries generalizing done with
  | nil =>
    refine ⟨[], ?_, rfl⟩
    rw [List.append_nil]
    rfl
  | cons e entries ih =>
    obtain ⟨name, a⟩ := e
    obtain ⟨t, ht, hg⟩ := h (name, a) List.mem_cons_self
    rw [keys_cons] at hn
    have hnew : name ∉ keys done := by
      intro hold
      exact (List.nodup_append.1 hn).2.2 name hold name List.mem_cons_self rfl
    have hn' : (keys (done ++ [(name, t)]) ++ keys entries).Nodup := by
      rw [keys_append, List.append_assoc]
      exact hn
    obtain ⟨es, hes, hgs⟩ := ih (fun e he => h e (List.mem_cons_of_mem _ he)) _ hn'
    refine ⟨(name, t) :: es, ?_, ?_⟩
    · rw [List.map_cons, dataOfEntries]
      dsimp only at ht ⊢
      rw [ht, Option.bind_some, insert_of_notMem hnew, hes, List.append_assoc,
        List.singleton_append]
    · rw [List.map_cons, hgs, hg]

/-- A table whose names are distinct is taken back entry by entry. -/
theorem reads_table {entries : List (String × α)} (hn : (keys entries).Nodup)
    (h : ∀ e ∈ entries, Reads s f g e.2) :
    ∃ es, dataOf (.table s) (tableOf f entries) = some (.table es) ∧
      es.map (fun e => (e.1, g e.2)) = entries := by
  obtain ⟨es, hes, hgs⟩ := dataOfEntries_map h [] hn
  refine ⟨es, ?_, hgs⟩
  rw [tableOf, dataOf]
  show (dataOfEntries s [] (entries.map fun e => (e.1, f e.2))).map Tree.table = _
  rw [hes, Option.map_some, List.nil_append]

/-! ## Fields -/

/-- A list if it is not empty. -/
def nonEmpty : List α → Option (List α)
  | [] => none
  | as => some as

@[simp] theorem fieldMember_some (fd : Field) (v : Json) :
    fieldMember fd (some v) = [(fd.key, v)] := rfl

@[simp] theorem fieldMember_map (fd : Field) (a : Option α) :
    fieldMember fd (a.map f) = optionalMember fd.key f a := by
  cases a <;> rfl

@[simp] theorem optionalMember_nonEmpty (key : String) (w : List α → Json) (as : List α) :
    optionalMember key w (nonEmpty as) = listMember key w as := by
  cases as <;> rfl

/-- What is left out when it is empty is taken back as what it is. -/
theorem FieldReads.of_nonEmpty {fd : Field} {as : List α} {w : List α → Json}
    {read : Option Tree → List α} (h : FieldReads fd (some (w as)) read as)
    (hfd : fd.required = false) (hnone : read none = []) :
    FieldReads fd ((nonEmpty as).map w) read as := by
  cases as with
  | nil => exact ⟨none, .missing hfd, hnone⟩
  | cons a as => exact h

variable (key : String)

theorem fieldReads_text (required : Bool) (name : String) :
    FieldReads ⟨key, .text, required⟩ (some (.str name)) textOf name :=
  ⟨some (.text name), .there rfl, rfl⟩

theorem fieldReads_text? (a : Option String) :
    FieldReads ⟨key, .optional .text, false⟩ (a.map .str) textOf? a := by
  cases a with
  | none => exact ⟨none, .missing rfl, rfl⟩
  | some name => exact ⟨some (.text name), .there rfl, rfl⟩

theorem fieldReads_flag (b : Bool) :
    FieldReads ⟨key, .flag, false⟩ (some (.bool b)) flagOf b :=
  ⟨some (.flag b), .there rfl, rfl⟩

theorem fieldReads_flag_set (b : Bool) :
    FieldReads ⟨key, .flag, false⟩ (if b then some (.bool true) else none) flagOf b := by
  cases b with
  | false => exact ⟨none, .missing rfl, rfl⟩
  | true => exact ⟨some (.flag true), .there rfl, rfl⟩

theorem fieldReads_list {as : List α} (h : ∀ a ∈ as, Reads s f g a) :
    FieldReads ⟨key, .list s, false⟩ (some (.arr (as.map f))) (fun u => (itemsOf u).map g) as := by
  obtain ⟨ts, hts, hgs⟩ := reads_list h
  exact ⟨some (.list ts), .there hts, hgs⟩

theorem fieldReads_texts (names : List String) :
    FieldReads ⟨key, .list .text, false⟩ (some (texts names)) textsOf names := by
  have hnames : ∀ name ∈ names, Reads .text Json.str asText name := fun name _ =>
    ⟨.text name, rfl, rfl⟩
  obtain ⟨ts, hts, hgs⟩ := reads_list hnames
  exact ⟨some (.list ts), .there hts, hgs⟩

theorem fieldReads_table {entries : List (String × α)} (hn : (keys entries).Nodup)
    (h : ∀ e ∈ entries, Reads s f g e.2) :
    FieldReads ⟨key, .table s, false⟩ (some (tableOf f entries))
      (fun u => (entriesOf u).map fun e => (e.1, g e.2)) entries := by
  obtain ⟨es, hes, hgs⟩ := reads_table hn h
  exact ⟨some (.table es), .there hes, hgs⟩

theorem fieldReads_record? {r : RecordName} {a : Option α}
    (h : ∀ x, a = some x → Reads (.record r) f g x) :
    FieldReads ⟨key, .optional (.record r), false⟩ (a.map f)
      (fun u => (presentOf u).map g) a := by
  cases a with
  | none => exact ⟨none, .missing rfl, rfl⟩
  | some x =>
    obtain ⟨t, ht, hg⟩ := h x rfl
    obtain ⟨us, rfl⟩ := exists_record_of_dataOf ht
    rw [← dataOf_optional_record] at ht
    exact ⟨some (.record us), .there ht, congrArg some hg⟩

end Reading

end ResourceCli.Shape
