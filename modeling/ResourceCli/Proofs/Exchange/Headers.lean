import ResourceCli.Exchange.Header
import ResourceCli.Log.Filter
import ResourceCli.Proofs.Table

/-!
# Headers that are put together

Headers are set one after another, each in place of the one that had its name before, and a name is
sent in small letters however it was written.  So what is sent under a name, in letters of either
case, is one value at most: the last one that is given for the name, or else what stood there before
(`values_headersFor`).
-/

namespace ResourceCli

open Text (Bytes)

/-! ## Names -/

/-- A character of a name is one of ASCII. -/
theorem toNat_lt_of_isTokenChar {c : Char} (h : isTokenChar c = true) : c.toNat < 128 := by
  unfold isTokenChar at h
  rcases Bool.or_eq_true_iff.1 h with halpha | hsign
  · rcases Bool.or_eq_true_iff.1 halpha with hletter | hdigit
    · rcases Bool.or_eq_true_iff.1 hletter with hupper | hlower
      · have hle : c.toNat ≤ 'Z'.toNat := (of_decide_eq_true hupper).2
        exact Nat.lt_of_le_of_lt hle (by decide)
      · have hle : c.toNat ≤ 'z'.toNat := of_decide_eq_true (Bool.and_eq_true_iff.1 hlower).2
        exact Nat.lt_of_le_of_lt hle (by decide)
    · have hle : c.toNat ≤ '9'.toNat := of_decide_eq_true (Bool.and_eq_true_iff.1 hdigit).2
      exact Nat.lt_of_le_of_lt hle (by decide)
  · have hall : ("!#$%&'*+-.^_\x60|~".toList.all fun d => decide (d.toNat < 128)) = true := by
      decide
    exact of_decide_eq_true (List.all_eq_true.1 hall c (List.contains_iff_mem.1 hsign))

/-- Making a character of ASCII small once more changes nothing. -/
theorem toLower_ascii {c : Char} (h : c.toNat < 128) :
    c.toLower.toNat < 128 ∧ c.toLower.toLower = c.toLower := by
  have hall : ∀ n < 128, (Char.ofNat n).toLower.toNat < 128 ∧
      (Char.ofNat n).toLower.toLower = (Char.ofNat n).toLower := by decide
  have hc := hall c.toNat h
  rwa [Char.ofNat_toNat] at hc

/-- Making letters small once more changes nothing. -/
theorem smallLetters_smallLetters (s : String) :
    Log.smallLetters (Log.smallLetters s) = Log.smallLetters s := by
  have hagain (c : Char) : c.toLower.toLower = c.toLower := by
    by_cases hc : c.toNat < 128
    · exact (toLower_ascii hc).2
    · have hkept : c.toLower = c := by
        refine dif_neg fun hcapital => hc ?_
        have hle : c.toNat ≤ 'Z'.toNat := hcapital.2
        exact Nat.lt_of_le_of_lt hle (by decide)
      rw [hkept, hkept]
  rw [Log.smallLetters, Log.smallLetters, String.toList_ofList, List.map_map]
  exact congrArg String.ofList (List.map_congr_left fun c _ => hagain c)

/-- A text of ASCII is in small letters what it is in lower case. -/
theorem lowercase_ascii {s : String} (h : ∀ c ∈ s.toList, c.toNat < 128) :
    Text.lowercase s = Log.smallLetters s := by
  rw [Text.lowercase, Log.smallLetters, List.map_eq_flatMap, List.flatMap_def, List.flatMap_def,
    List.map_congr_left fun c hc => show Text.lowerChar c = [c.toLower] from if_pos (h c hc)]

/-- A name that can be sent is one of ASCII, and is sent in small letters. -/
theorem headerName?_eq_some {name key : String} (h : headerName? name = some key) :
    key = Log.smallLetters name ∧ ∀ c ∈ name.toList, c.toNat < 128 := by
  unfold headerName? at h
  split at h
  · rename_i hname
    refine ⟨(Option.some.inj h).symm, fun c hc => ?_⟩
    have hverb := (Bool.and_eq_true_iff.1 (Bool.and_eq_true_iff.1 hname).1).2
    exact toNat_lt_of_isTokenChar (List.all_eq_true.1 hverb c hc)
  · cases h

/-- A header is a secret by the name under which it is sent if it is one by its own. -/
theorem isSecretHeader_of_headerName? {name key : String} (h : headerName? name = some key) :
    isSecretHeader name = isSecretHeader key := by
  obtain ⟨rfl, hascii⟩ := headerName?_eq_some h
  have hsmall : ∀ c ∈ (Log.smallLetters name).toList, c.toNat < 128 := by
    intro c hc
    rw [Log.smallLetters, String.toList_ofList] at hc
    obtain ⟨d, hd, rfl⟩ := List.mem_map.1 hc
    exact (toLower_ascii (hascii d hd)).1
  rw [isSecretHeader, isSecretHeader, lowercase_ascii hascii, lowercase_ascii hsmall,
    smallLetters_smallLetters]

/-- Two names are the same, in letters of either case. -/
def sameName (name name' : String) : Bool := Log.smallLetters name == Log.smallLetters name'

/-! ## The last value -/

/-- The value that is given last for a name. -/
def lastValue? (name : String) (given : List (String × String)) : Option String :=
  (given.filter fun h => sameName h.1 name).getLast?.map Prod.snd

theorem lastValue?_append (name : String) (given given' : List (String × String)) :
    lastValue? name (given ++ given') = (lastValue? name given').or (lastValue? name given) := by
  unfold lastValue?
  rw [List.filter_append, List.getLast?_append]
  cases (given'.filter fun h => sameName h.1 name).getLast? <;> rfl

theorem lastValue?_cons (name : String) (h : String × String) (given : List (String × String)) :
    lastValue? name (h :: given) =
      (lastValue? name given).or (if sameName h.1 name then some h.2 else none) := by
  rw [← List.singleton_append, lastValue?_append]
  congr 1
  unfold lastValue?
  rw [List.filter_singleton]
  cases sameName h.1 name <;> rfl

/-- The last value for a name is given with that name. -/
theorem exists_of_lastValue? {name value : String} {given : List (String × String)}
    (h : lastValue? name given = some value) :
    ∃ own, (own, value) ∈ given ∧ sameName own name = true := by
  obtain ⟨⟨own, _⟩, hlast, rfl⟩ := Option.map_eq_some_iff.1 h
  obtain ⟨hmem, hsame⟩ := List.mem_filter.1 (List.mem_of_getLast? hlast)
  exact ⟨own, hmem, hsame⟩

/-! ## What is sent under a name -/

namespace Headers

/-- The values that are sent under a name. -/
def values (headers : Headers) (name : String) : List Bytes :=
  (headers.filter fun h => sameName h.1 name).map Prod.snd

/-- Every name stands there once, in small letters. -/
structure Tidy (headers : Headers) : Prop where
  /-- The names are in small letters. -/
  small : ∀ h ∈ headers, Log.smallLetters h.1 = h.1
  /-- No name stands there twice. -/
  nodup : (keys headers).Nodup

variable {headers all : Headers}

/-- What is sent under a name is what is found under it in small letters. -/
theorem Tidy.values_eq (h : headers.Tidy) (name : String) :
    headers.values name = (headers.lookup (Log.smallLetters name)).toList := by
  obtain ⟨hsmall, hnodup⟩ := h
  unfold values
  induction headers with
  | nil => rfl
  | cons x headers ih =>
    obtain ⟨key, value⟩ := x
    have hkey : Log.smallLetters key = key := hsmall _ List.mem_cons_self
    rw [keys_cons, List.nodup_cons] at hnodup
    have ih := ih (fun y hy => hsmall y (List.mem_cons_of_mem _ hy)) hnodup.2
    by_cases hname : key = Log.smallLetters name
    · have hsame : sameName key name = true := by rw [sameName, hkey, hname, beq_self_eq_true]
      have hrest : headers.lookup key = none := lookup_eq_none_iff.2 hnodup.1
      rw [← hname] at ih ⊢
      rw [List.filter_cons, if_pos hsame, List.map_cons, ih, hrest, List.lookup_cons_self]
      rfl
    · have hother : sameName key name = false := by
        rw [sameName, hkey]
        exact beq_eq_false_iff_ne.2 hname
      rw [List.filter_cons, if_neg (by simp [hother]), ih, lookup_cons_of_ne (Ne.symm hname)]

/-- A header is set as an entry is put into a table. -/
theorem setHeader_eq_insert (name : String) (value : Bytes) (headers : Headers) :
    setHeader name value headers = Tree.insert name value headers := by
  induction headers with
  | nil => rfl
  | cons x headers ih => rw [setHeader, Tree.insert, ih]

/-- Setting a header keeps all names single and in small letters. -/
theorem Tidy.setHeader (h : headers.Tidy) {name : String} (hname : Log.smallLetters name = name)
    (value : Bytes) : Tidy (setHeader name value headers) := by
  rw [setHeader_eq_insert]
  refine ⟨fun x hx => ?_, nodup_keys_insert h.nodup name value⟩
  have hkey : x.1 ∈ keys (Tree.insert name value headers) := List.mem_map_of_mem hx
  have hcases : x.1 ∈ keys headers ∨ x.1 = name := by
    by_cases hmem : name ∈ keys headers
    · exact .inl (by rwa [keys_insert_of_mem hmem] at hkey)
    · rw [insert_of_notMem hmem, keys_append] at hkey
      simpa using hkey
  rcases hcases with hold | hnew
  · obtain ⟨y, hy, hyx⟩ := List.mem_map.1 hold
    rw [← hyx]
    exact h.small y hy
  · rw [hnew, hname]

/-- Of the headers that are added the last one of a name is found under it, and what was there
before if there is none. -/
theorem lookup_addHeaders {given : List (String × String)} (h : addHeaders headers given = .ok all)
    (ht : headers.Tidy) :
    all.Tidy ∧ ∀ name, all.lookup (Log.smallLetters name) =
      ((lastValue? name given).map Text.utf8Encode).or
        (headers.lookup (Log.smallLetters name)) := by
  induction given generalizing headers with
  | nil =>
    obtain rfl := Except.ok.inj h
    exact ⟨ht, fun name => rfl⟩
  | cons x given ih =>
    obtain ⟨own, value⟩ := x
    rw [addHeaders] at h
    cases hkey : headerName? own with
    | none =>
      rw [hkey] at h
      cases h
    | some key =>
      simp only [hkey] at h
      split at h
      · obtain ⟨rfl, -⟩ := headerName?_eq_some hkey
        obtain ⟨htidy, hlookup⟩ :=
          ih h (ht.setHeader (smallLetters_smallLetters own) (Text.utf8Encode value))
        refine ⟨htidy, fun name => ?_⟩
        rw [hlookup, lookup_setHeader, lastValue?_cons, sameName]
        cases lastValue? name given with
        | some last => rfl
        | none =>
          by_cases hsame : Log.smallLetters name = Log.smallLetters own
          · simp [hsame]
          · simp [hsame, Ne.symm hsame]
      · cases h

/-- **What is sent under a name**, in letters of either case: one value at most, the last one that
is given for it; if none is given, then the type of the content for its name. -/
theorem values_headersFor {verb : String} {given : List (String × String)}
    (h : headersFor verb given = .ok all) (name : String) :
    all.values name =
      (((lastValue? name given).or
        (if sameName "content-type" name then some (contentType verb) else none)).map
          Text.utf8Encode).toList := by
  have htype : Tidy [("content-type", Text.utf8Encode (contentType verb))] :=
    ⟨by simpa using show Log.smallLetters "content-type" = "content-type" by decide,
      List.nodup_singleton _⟩
  obtain ⟨htidy, hlookup⟩ := lookup_addHeaders h htype
  rw [htidy.values_eq, hlookup]
  cases lastValue? name given with
  | some last => rfl
  | none =>
    rw [Option.map_none, Option.none_or, Option.none_or, ← htype.values_eq, values,
      List.filter_singleton]
    cases sameName "content-type" name <;> rfl

end Headers

end ResourceCli
