import ResourceCli.Proofs.Json.Layout
import ResourceCli.Proofs.Json.Reading
import ResourceCli.Proofs.Json.Shown
import ResourceCli.Proofs.Table

/-!
# What a JSON text means

The meaning of a JSON text leaves out how it is written: an object is a mapping from keys to values,
whatever the order of its members, and a number is a rational number.

Free data is read, held, and written again.  What is written then means the same as what was read,
except for the numbers: each means the number that is written for it (`Literal.sent`).  So the
meaning is kept exactly if each of these is kept.

* `meaning_of_held`: what is held means what the text means, up to the numbers.
* `exists_isText_compact`: what is held is written as a text of the same meaning.
* `Source.meaning_eq_iff`: two ways to understand the numbers give one meaning only if they agree.
-/

namespace ResourceCli.Json

open Number

/-- What a JSON text means. -/
inductive Meaning
  /-- The value `null`. -/
  | null
  /-- `true` or `false`. -/
  | bool (b : Bool)
  /-- A number. -/
  | num (q : ℚ)
  /-- A text. -/
  | str (s : String)
  /-- A list of values. -/
  | arr (items : List Meaning)
  /-- A mapping from keys to values. -/
  | obj (member? : String → Option Meaning)

mutual

/-- The meaning of a value, where `number` says what a number means. -/
def Source.meaning (number : Literal → ℚ) : Source Quoted → Meaning
  | .null => .null
  | .bool b => .bool b
  | .num l => .num (number l)
  | .str q => .str q.text
  | .arr items => .arr (Source.meanings number items)
  | .obj members => .obj fun key => Source.memberMeaning? number key members

/-- The meanings of the items. -/
def Source.meanings (number : Literal → ℚ) : List (Source Quoted) → List Meaning
  | [] => []
  | t :: ts => t.meaning number :: Source.meanings number ts

/-- The meaning of the member of a key. -/
def Source.memberMeaning? (number : Literal → ℚ) (key : String) :
    List (Quoted × Source Quoted) → Option Meaning
  | [] => none
  | (k, t) :: ts =>
    if key = k.text then some (t.meaning number) else Source.memberMeaning? number key ts

end

mutual

/-- The meaning of some data, where a number means what is written for it. -/
def meaning : Json → Meaning
  | null => .null
  | bool b => .bool b
  | num n => .num n.value
  | str s => .str s
  | arr items => .arr (meanings items)
  | obj members => .obj fun key => memberMeaning? key members

/-- The meanings of the items. -/
def meanings : List Json → List Meaning
  | [] => []
  | v :: vs => v.meaning :: meanings vs

/-- The meaning of the member of a key. -/
def memberMeaning? (key : String) : List (String × Json) → Option Meaning
  | [] => none
  | (k, v) :: ms => if key = k then some v.meaning else memberMeaning? key ms

end

/-- The number that is written for a number that was read; one that is too large is not read. -/
def Literal.sent (l : Literal) : ℚ := (l.held?.map Numeral.value).getD 0

mutual

/-- The keys of every object in a value are distinct. -/
def Source.Distinct : Source Quoted → Prop
  | .null | .bool _ | .num _ | .str _ => True
  | .arr items => Source.DistinctItems items
  | .obj members => (members.map (·.1.text)).Nodup ∧ Source.DistinctMembers members

/-- The keys of every object in the items are distinct. -/
def Source.DistinctItems : List (Source Quoted) → Prop
  | [] => True
  | t :: ts => t.Distinct ∧ Source.DistinctItems ts

/-- The keys of every object in the values of the members are distinct. -/
def Source.DistinctMembers : List (Quoted × Source Quoted) → Prop
  | [] => True
  | (_, t) :: ts => t.Distinct ∧ Source.DistinctMembers ts

end

mutual

/-- The numbers in a value. -/
def Source.literals {σ : Type} : Source σ → List Literal
  | .null | .bool _ | .str _ => []
  | .num l => [l]
  | .arr items => Source.itemLiterals items
  | .obj members => Source.memberLiterals members

/-- The numbers in the items. -/
def Source.itemLiterals {σ : Type} : List (Source σ) → List Literal
  | [] => []
  | t :: ts => t.literals ++ Source.itemLiterals ts

/-- The numbers in the values of the members. -/
def Source.memberLiterals {σ : Type} : List (σ × Source σ) → List Literal
  | [] => []
  | (_, t) :: ts => t.literals ++ Source.memberLiterals ts

end

/-! ## Which numbers a meaning tells apart -/

theorem memberMeaning?_eq_none {number : Literal → ℚ} {key : String}
    {ts : List (Quoted × Source Quoted)} (h : key ∉ ts.map (·.1.text)) :
    Source.memberMeaning? number key ts = none := by
  induction ts with
  | nil => rfl
  | cons e ts ih =>
    obtain ⟨k, t⟩ := e
    rw [List.map_cons, List.mem_cons, not_or] at h
    rw [Source.memberMeaning?, if_neg h.1, ih h.2]

section Numbers

variable {f g : Literal → ℚ}

mutual

/-- **A meaning tells numbers apart**: two ways to understand the numbers of a value give one
meaning exactly if they agree on all of them. -/
theorem Source.meaning_eq_iff : ∀ (t : Source Quoted), t.Distinct →
    (t.meaning f = t.meaning g ↔ ∀ l ∈ t.literals, f l = g l)
  | .null, _ | .bool _, _ | .str _, _ => by
    simp [Source.meaning, Source.literals]
  | .num l, _ => by
    simp [Source.meaning, Source.literals]
  | .arr items, h => by
    rw [Source.meaning, Source.meaning, Source.literals, Meaning.arr.injEq]
    exact Source.meanings_eq_iff items h
  | .obj members, h => by
    rw [Source.meaning, Source.meaning, Source.literals, Meaning.obj.injEq, funext_iff]
    exact Source.memberMeaning?_eq_iff members h.1 h.2

theorem Source.meanings_eq_iff : ∀ (ts : List (Source Quoted)), Source.DistinctItems ts →
    (Source.meanings f ts = Source.meanings g ts ↔ ∀ l ∈ Source.itemLiterals ts, f l = g l)
  | [], _ => by simp [Source.meanings, Source.itemLiterals]
  | t :: ts, h => by
    rw [Source.meanings, Source.meanings, Source.itemLiterals, List.cons.injEq,
      Source.meaning_eq_iff t h.1, Source.meanings_eq_iff ts h.2, List.forall_mem_append]

theorem Source.memberMeaning?_eq_iff : ∀ (ts : List (Quoted × Source Quoted)),
    (ts.map (·.1.text)).Nodup → Source.DistinctMembers ts →
    ((∀ key, Source.memberMeaning? f key ts = Source.memberMeaning? g key ts) ↔
      ∀ l ∈ Source.memberLiterals ts, f l = g l)
  | [], _, _ => by simp [Source.memberMeaning?, Source.memberLiterals]
  | (k, t) :: ts, hkeys, h => by
    rw [List.map_cons, List.nodup_cons] at hkeys
    rw [Source.memberLiterals, List.forall_mem_append, ← Source.meaning_eq_iff t h.1,
      ← Source.memberMeaning?_eq_iff ts hkeys.2 h.2]
    simp only [Source.memberMeaning?]
    constructor
    · intro hall
      refine ⟨?_, fun key => ?_⟩
      · have hfirst := hall k.text
        rw [if_pos rfl, if_pos rfl] at hfirst
        exact Option.some.inj hfirst
      · by_cases hk : key = k.text
        · rw [hk, memberMeaning?_eq_none hkeys.1, memberMeaning?_eq_none hkeys.1]
        · have hlater := hall key
          rwa [if_neg hk, if_neg hk] at hlater
    · rintro ⟨hfirst, hlater⟩ key
      rw [hfirst, hlater key]

end

end Numbers

/-! ## What is held -/

theorem memberMeaning?_insertSorted (key k : String) (v : Json) (ms : List (String × Json)) :
    memberMeaning? key (insertSorted k v ms) =
      if key = k then some v.meaning else memberMeaning? key ms := by
  have lookup_eq : ∀ ms : List (String × Json),
      memberMeaning? key ms = (ms.lookup key).map meaning := by
    intro ms
    induction ms with
    | nil => rfl
    | cons e ms ih =>
      obtain ⟨k', v'⟩ := e
      rw [memberMeaning?]
      by_cases hk : key = k'
      · rw [if_pos hk, hk, List.lookup_cons_self, Option.map_some]
      · rw [if_neg hk, lookup_cons_of_ne hk, ih]
  rw [lookup_eq, lookup_eq, lookup_insertSorted]
  split <;> rfl

mutual

/-- **What is held means what the text means**, where a number means what is written for it. -/
theorem meaning_of_held : ∀ (t : Source Quoted) {v : Json}, t.Distinct → t.held? = some v →
    v.meaning = t.meaning Literal.sent
  | .null, v, _, h => by
    cases h
    rfl
  | .bool b, v, _, h => by
    cases h
    rfl
  | .num l, v, _, h => by
    obtain ⟨n, hn, rfl⟩ := Option.map_eq_some_iff.1 h
    rw [meaning, Source.meaning, Literal.sent, hn]
    rfl
  | .str q, v, _, h => by
    cases h
    rw [meaning, Source.meaning]
  | .arr items, v, hd, h => by
    obtain ⟨vs, hvs, rfl⟩ := Option.map_eq_some_iff.1 h
    rw [meaning, Source.meaning, meanings_of_held items hd hvs]
  | .obj members, v, hd, h => by
    obtain ⟨ms, hms, rfl⟩ := Option.map_eq_some_iff.1 h
    rw [meaning, Source.meaning]
    congr 1
    funext key
    rw [memberMeaning?_of_held members hd.1 hd.2 hms key]
    cases Source.memberMeaning? Literal.sent key members <;> rfl

theorem meanings_of_held : ∀ (ts : List (Source Quoted)) {vs : List Json},
    Source.DistinctItems ts → Source.heldItems? ts = some vs →
    meanings vs = Source.meanings Literal.sent ts
  | [], vs, _, h => by
    cases h
    rfl
  | t :: ts, vs, hd, h => by
    rw [Source.heldItems?, Option.bind_eq_some_iff] at h
    obtain ⟨v, hv, h⟩ := h
    obtain ⟨vs', hvs', rfl⟩ := Option.map_eq_some_iff.1 h
    rw [meanings, Source.meanings, meaning_of_held t hd.1 hv, meanings_of_held ts hd.2 hvs']

theorem memberMeaning?_of_held : ∀ (ts : List (Quoted × Source Quoted))
    {done ms : List (String × Json)}, (ts.map (·.1.text)).Nodup → Source.DistinctMembers ts →
    Source.heldMembers? done ts = some ms → ∀ key,
    memberMeaning? key ms =
      (Source.memberMeaning? Literal.sent key ts).or (memberMeaning? key done)
  | [], done, ms, _, _, h, key => by
    cases h
    rfl
  | (k, t) :: ts, done, ms, hkeys, hd, h, key => by
    rw [List.map_cons, List.nodup_cons] at hkeys
    rw [Source.heldMembers?, Option.bind_eq_some_iff] at h
    obtain ⟨v, hv, h⟩ := h
    rw [memberMeaning?_of_held ts hkeys.2 hd.2 h key, memberMeaning?_insertSorted,
      Source.memberMeaning?]
    by_cases hk : key = k.text
    · rw [if_pos hk, if_pos hk, hk, memberMeaning?_eq_none hkeys.1, meaning_of_held t hd.1 hv]
      rfl
    · rw [if_neg hk, if_neg hk]

end

/-! ## What is written -/

mutual

/-- The doubles in some data are kept in their own form. -/
def IsNormal : Json → Prop
  | null | bool _ | str _ | num (.int _) => True
  | num (.double x) => x.IsNormal
  | arr items => IsNormalItems items
  | obj members => IsNormalMembers members

/-- The doubles in the items are kept in their own form. -/
def IsNormalItems : List Json → Prop
  | [] => True
  | v :: vs => v.IsNormal ∧ IsNormalItems vs

/-- The doubles in the members are kept in their own form. -/
def IsNormalMembers : List (String × Json) → Prop
  | [] => True
  | (_, v) :: ms => v.IsNormal ∧ IsNormalMembers ms

end

/-- Characters within a string are written as escapes that stand for them. -/
theorem writes_escaped (cs : List Char) : Writes (cs.flatMap escapeChar) cs := by
  induction cs with
  | nil => exact .nil
  | cons c cs ih =>
    rw [List.flatMap_cons]
    rcases escapeChar_cases c with ⟨hquote, hback, hlow, h⟩ | ⟨d, hd, h⟩ | ⟨hlow, h⟩
    · rw [h]
      exact .plain hquote hback hlow ih
    · rw [h]
      exact .letter hd ih
    · rw [h]
      obtain ⟨ds, hlen, hvalue, hds⟩ :=
        hexEscape_sound (hexEscape_small (n := c.toNat) (by omega) [])
      rw [List.append_nil] at hds
      have hhigh : isHighSurrogate c.toNat = false := by
        simp only [isHighSurrogate, Bool.and_eq_false_iff, decide_eq_false_iff_not]
        omega
      have hlow' : isLowSurrogate c.toNat = false := by
        simp only [isLowSurrogate, Bool.and_eq_false_iff, decide_eq_false_iff_not]
        omega
      have hcode := Writes.code hlen hvalue hhigh hlow' ih
      rwa [← hds, Char.ofNat_toNat] at hcode

/-- A text as it is written in data. -/
def quoted (s : String) : Quoted := ⟨s.toList.flatMap escapeChar, s, writes_escaped s.toList⟩

theorem spelled_quoted (s : String) : (quoted s).spelled = stringText s := rfl

section Layouts

variable (l : Layout)

theorem separates_gap (first : Bool) (level : Nat) :
    Separates first ((if first then [] else [',']) ++ l.gap level) := by
  cases first with
  | true => exact l.spaces_gap level
  | false => exact ⟨[], l.gap level, .nil, l.spaces_gap level, rfl⟩

mutual

/-- **What is held is written** as a value of the same meaning, in any layout. -/
theorem exists_spells : ∀ (v : Json) (level : Nat), v.IsNormal →
    ∃ u, Spells u (l.text level v) ∧ u.meaning Literal.value = v.meaning
  | null, level, _ => ⟨.null, rfl, rfl⟩
  | bool b, level, _ => ⟨.bool b, rfl, rfl⟩
  | num n, level, h => by
    have hn : ∀ x, n = .double x → x.IsNormal := by
      rintro x rfl
      exact h
    obtain ⟨lit, htext, hvalue⟩ := Numeral.exists_literal hn
    refine ⟨.num lit, ?_, ?_⟩
    · rw [Layout.text]
      exact htext.symm
    · rw [Source.meaning, hvalue, meaning]
  | str s, level, _ => ⟨.str (quoted s), rfl, rfl⟩
  | arr items, level, h => by
    obtain ⟨us, hspells, hmeanings⟩ := exists_spellsItems items level true h
    refine ⟨.arr us, ⟨_, hspells, ?_⟩, ?_⟩
    · rw [Layout.text]
    · rw [Source.meaning, hmeanings, meaning]
  | obj members, level, h => by
    obtain ⟨us, hspells, hmeanings⟩ := exists_spellsMembers members level true h
    refine ⟨.obj us, ⟨_, hspells, ?_⟩, ?_⟩
    · rw [Layout.text]
    · rw [Source.meaning, meaning]
      exact congrArg Meaning.obj (funext hmeanings)

theorem exists_spellsItems : ∀ (vs : List Json) (level : Nat) (first : Bool), IsNormalItems vs →
    ∃ us, SpellsItems first us (l.items level first vs) ∧
      Source.meanings Literal.value us = meanings vs
  | [], level, first, _ => ⟨[], ⟨_, l.spaces_end level first, by rw [Layout.items]⟩, rfl⟩
  | v :: vs, level, first, h => by
    obtain ⟨u, hspells, hmeaning⟩ := exists_spells v (level + 1) h.1
    obtain ⟨us, hlater, hmeanings⟩ := exists_spellsItems vs level false h.2
    refine ⟨u :: us, ⟨_, _, _, separates_gap l first (level + 1), hspells, hlater, ?_⟩, ?_⟩
    · rw [Layout.items, List.append_assoc]
    · rw [Source.meanings, hmeaning, hmeanings, meanings]

theorem exists_spellsMembers : ∀ (ms : List (String × Json)) (level : Nat) (first : Bool),
    IsNormalMembers ms → ∃ us, SpellsMembers first us (l.members level first ms) ∧
      ∀ key, Source.memberMeaning? Literal.value key us = memberMeaning? key ms
  | [], level, first, _ => ⟨[], ⟨_, l.spaces_end level first, by rw [Layout.members]⟩, fun _ => rfl⟩
  | (k, v) :: ms, level, first, h => by
    obtain ⟨u, hspells, hmeaning⟩ := exists_spells v (level + 1) h.1
    obtain ⟨us, hlater, hmeanings⟩ := exists_spellsMembers ms level false h.2
    refine ⟨(quoted k, u) :: us, ⟨_, ':' :: l.afterColon, _, _, separates_gap l first (level + 1),
      ⟨[], l.afterColon, .nil, l.spaces_afterColon, rfl⟩, hspells, hlater, ?_⟩, fun key => ?_⟩
    · rw [Layout.members, spelled_quoted, List.append_assoc]
      rfl
    · rw [Source.memberMeaning?, memberMeaning?, hmeaning, hmeanings]
      rfl

end

end Layouts

/-- **The compact text** of what is held is a text of the same meaning. -/
theorem exists_isText_compact {v : Json} (h : v.IsNormal) :
    ∃ u, IsText u v.compact.toList ∧ u.meaning Literal.value = v.meaning := by
  obtain ⟨u, hspells, hmeaning⟩ := exists_spells .compact v 0 h
  refine ⟨u, ⟨[], _, [], .nil, hspells, .nil, ?_⟩, hmeaning⟩
  rw [compact, String.toList_ofList, compactChars_eq_text v 0, List.nil_append, List.append_nil]

/-! ## Numbers that are read -/

theorem isNormal_of_mul {x y z : Binary64} (h : x.mul y = some z) : z.IsNormal :=
  Binary64.isNormal_of_ofRatio h

theorem isNormal_of_div {x y z : Binary64} (h : x.div y = some z) : z.IsNormal :=
  Binary64.isNormal_of_ofRatio h

/-- One step of a scaling.  The branches are compared one by one, and the power of ten that is
divided by is a variable meanwhile: a comparison of the whole would compute it. -/
theorem scale_succ {x t : Binary64} {power : Int} {fuel : Nat} (ht : Binary64.tenTo 308 = t) :
    scale x power (fuel + 1) =
      if power.natAbs ≤ 308 then
        if 0 ≤ power then x.mul (Binary64.tenTo power.toNat)
        else x.div (Binary64.tenTo (-power).toNat)
      else if x.isZero then some x
      else if 0 ≤ power then none
      else (x.div t).bind fun y => scale y (power + 308) fuel := by
  subst ht
  refine ite_congr rfl (fun _ => rfl) fun _ => ?_
  refine ite_congr rfl (fun _ => rfl) fun _ => ?_
  refine ite_congr rfl (fun _ => rfl) fun _ => ?_
  generalize Binary64.tenTo 308 = t
  cases x.div t <;> rfl

/-- The powers of ten that a number is multiplied with leave it in its own form. -/
theorem isNormal_of_scale {x y : Binary64} {power : Int} {fuel : Nat} (hx : x.IsNormal)
    (h : scale x power fuel = some y) : y.IsNormal := by
  induction fuel generalizing x power with
  | zero =>
    cases h
    exact Binary64.isNormal_zero false
  | succ fuel ih =>
    obtain ⟨t, ht⟩ : ∃ t, Binary64.tenTo 308 = t := exists_eq'
    rw [scale_succ ht] at h
    by_cases hsmall : power.natAbs ≤ 308
    · rw [if_pos hsmall] at h
      by_cases hup : 0 ≤ power
      · rw [if_pos hup] at h
        exact isNormal_of_mul h
      · rw [if_neg hup] at h
        exact isNormal_of_div h
    rw [if_neg hsmall] at h
    by_cases hzero : x.isZero = true
    · rw [if_pos hzero] at h
      rwa [← Option.some.inj h]
    rw [if_neg hzero] at h
    by_cases hup : 0 ≤ power
    · rw [if_pos hup] at h
      cases h
    rw [if_neg hup] at h
    obtain ⟨z, hz, hlater⟩ := Option.bind_eq_some_iff.1 h
    exact ih (isNormal_of_div hz) hlater

theorem isNormal_of_doubleFrom? {negative : Bool} {lead : Nat} {power : Int} {n : Numeral}
    (h : doubleFrom? negative lead power = some n) : ∀ x, n = .double x → x.IsNormal := by
  rintro x rfl
  obtain ⟨y, hy, hx⟩ := Option.map_eq_some_iff.1 h
  have hnormal := isNormal_of_scale (Binary64.isNormal_ofNat lead) hy
  cases hx
  split
  · exact hnormal.negate
  · exact hnormal

/-- **The numbers that are read** are kept in their own form. -/
theorem isNormal_of_held? {lit : Literal} {n : Numeral} (h : lit.held? = some n) :
    ∀ x, n = .double x → x.IsNormal := by
  rintro x rfl
  unfold Literal.held? at h
  dsimp only at h
  split at h
  · unfold wholeNumeral at h
    split at h
    · cases h
    split at h
    · cases h
      exact (Binary64.isNormal_ofNat _).negate
    · cases h
  · cases he : lit.exponent with
    | none =>
      rw [he] at h
      exact isNormal_of_doubleFrom? h x rfl
    | some e =>
      rw [he, heldFrom?_some] at h
      split at h
      · exact isNormal_of_doubleFrom? h x rfl
      split at h
      · cases h
      · cases h
        exact Binary64.isNormal_zero _

theorem isNormalMembers_iff {ms : List (String × Json)} :
    IsNormalMembers ms ↔ ∀ e ∈ ms, e.2.IsNormal := by
  induction ms with
  | nil => exact iff_of_true trivial fun e he => absurd he List.not_mem_nil
  | cons e ms ih =>
    obtain ⟨k, v⟩ := e
    rw [IsNormalMembers, ih, List.forall_mem_cons]

mutual

theorem isNormal_of_held : ∀ (t : Source Quoted) {v : Json}, t.held? = some v → v.IsNormal
  | .null, v, h => by
    cases h
    trivial
  | .bool b, v, h => by
    cases h
    trivial
  | .num l, v, h => by
    obtain ⟨n, hn, rfl⟩ := Option.map_eq_some_iff.1 h
    cases n with
    | int i => trivial
    | double x => exact isNormal_of_held? hn x rfl
  | .str q, v, h => by
    cases h
    trivial
  | .arr items, v, h => by
    obtain ⟨vs, hvs, rfl⟩ := Option.map_eq_some_iff.1 h
    exact isNormalItems_of_held items hvs
  | .obj members, v, h => by
    obtain ⟨ms, hms, rfl⟩ := Option.map_eq_some_iff.1 h
    have hnone : IsNormalMembers [] := trivial
    exact isNormalMembers_of_held members hnone hms

theorem isNormalItems_of_held : ∀ (ts : List (Source Quoted)) {vs : List Json},
    Source.heldItems? ts = some vs → IsNormalItems vs
  | [], vs, h => by
    cases h
    trivial
  | t :: ts, vs, h => by
    rw [Source.heldItems?, Option.bind_eq_some_iff] at h
    obtain ⟨v, hv, h⟩ := h
    obtain ⟨vs', hvs', rfl⟩ := Option.map_eq_some_iff.1 h
    exact ⟨isNormal_of_held t hv, isNormalItems_of_held ts hvs'⟩

theorem isNormalMembers_of_held : ∀ (ts : List (Quoted × Source Quoted))
    {done ms : List (String × Json)}, IsNormalMembers done →
    Source.heldMembers? done ts = some ms → IsNormalMembers ms
  | [], done, ms, hdone, h => by
    cases h
    exact hdone
  | (k, t) :: ts, done, ms, hdone, h => by
    rw [Source.heldMembers?, Option.bind_eq_some_iff] at h
    obtain ⟨v, hv, h⟩ := h
    refine isNormalMembers_of_held ts (isNormalMembers_iff.2 fun e he => ?_) h
    rcases mem_insertSorted he with rfl | he
    · exact isNormal_of_held t hv
    · exact isNormalMembers_iff.1 hdone e he

end

end ResourceCli.Json
