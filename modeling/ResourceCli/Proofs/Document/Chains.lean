import ResourceCli.Proofs.Document.References
import Mathlib.Data.List.Nodup

/-!
# What comes of following references

The references that are followed from a schema form a chain, and the document alone says how it goes
on (`Chain.exists_rest`).  Following it stops in one of three places: at a schema without a
reference, at a reference whose component is missing, or where going on is given up.  It is given up
at a reference text that was met before and after as many references as are allowed.

* `Ending`: what it comes to at the end of a chain.  Every schema has one such end, and no other one
  (`dereference_eq_iff`).
* `Chain.exists_longer`: a chain that comes back to a component has no end at all, even if it comes
  back under another text.
* `dereference_outcome`: when following references succeeds, when it finds a component missing, and
  that it is given up in all other cases.
-/

namespace ResourceCli.Document

variable {doc : Document} {s t u v : Schema} {texts texts' rest : List String} {reference : String}

/-- References of these texts are followed from a schema to another one. -/
inductive Chain (doc : Document) : Schema → List String → Schema → Prop
  | nil (s : Schema) : Chain doc s [] s
  | cons {s next t : Schema} {reference : String} {texts : List String}
      (h : s.reference = some reference)
      (hc : doc.component? (referenceName reference) = some next) (hn : Chain doc next texts t) :
      Chain doc s (reference :: texts) t

namespace Chain

theorem append (h : doc.Chain s texts t) (h' : doc.Chain t texts' u) :
    doc.Chain s (texts ++ texts') u := by
  induction h with
  | nil s => exact h'
  | cons hr hc _ ih => exact .cons hr hc (ih h')

theorem concat (h : doc.Chain s texts t) (hr : t.reference = some reference)
    (hc : doc.component? (referenceName reference) = some u) :
    doc.Chain s (texts ++ [reference]) u :=
  h.append (.cons hr hc (.nil u))

theorem exists_of_append (h : doc.Chain s (texts ++ texts') u) :
    ∃ t, doc.Chain s texts t ∧ doc.Chain t texts' u := by
  induction texts generalizing s with
  | nil => exact ⟨s, .nil s, h⟩
  | cons reference texts ih =>
    cases h with
    | cons hr hc hn =>
      obtain ⟨t, h₁, h₂⟩ := ih hn
      exact ⟨t, .cons hr hc h₁, h₂⟩

/-- Of two chains from one schema the longer one goes on where the shorter one ends. -/
theorem exists_rest (h : doc.Chain s texts t) (h' : doc.Chain s texts' u)
    (hle : texts.length ≤ texts'.length) : ∃ rest, texts' = texts ++ rest ∧ doc.Chain t rest u := by
  induction h generalizing texts' with
  | nil s => exact ⟨texts', rfl, h'⟩
  | @cons s next t reference texts hr hc hn ih =>
    cases h' with
    | nil => exact absurd hle (Nat.not_succ_le_zero _)
    | cons hr' hc' hn' =>
      obtain rfl := Option.some.inj (hr.symm.trans hr')
      obtain rfl := Option.some.inj (hc.symm.trans hc')
      obtain ⟨rest, rfl, hrest⟩ := ih hn' (Nat.le_of_succ_le_succ hle)
      exact ⟨rest, rfl, hrest⟩

/-- A chain that comes back to its start can be gone round again and again. -/
theorem exists_rounds (h : doc.Chain s texts s) (hne : texts ≠ []) (n : Nat) :
    ∃ texts', n ≤ texts'.length ∧ doc.Chain s texts' s := by
  induction n with
  | zero => exact ⟨[], Nat.le_refl _, .nil s⟩
  | succ n ih =>
    obtain ⟨texts', hn, hc⟩ := ih
    have hpos : 0 < texts.length := List.length_pos_iff.2 hne
    refine ⟨texts ++ texts', ?_, h.append hc⟩
    rw [List.length_append]
    omega

/-- **A chain that comes back to a component goes on for ever**, under whatever texts it comes
back. -/
theorem exists_longer (h : doc.Chain s texts u) (hback : ¬ (texts.map referenceName).Nodup)
    (n : Nat) : ∃ texts' u', n ≤ texts'.length ∧ doc.Chain s texts' u' := by
  induction h with
  | nil s => exact absurd List.nodup_nil hback
  | @cons s next u reference texts hr hc hn ih =>
    suffices ∃ texts' u', n ≤ texts'.length ∧ doc.Chain next texts' u' by
      obtain ⟨texts', u', hlong, h'⟩ := this
      exact ⟨reference :: texts', u', Nat.le_succ_of_le hlong, .cons hr hc h'⟩
    by_cases hmem : referenceName reference ∈ texts.map referenceName
    · obtain ⟨again, hagain, hname⟩ := List.mem_map.1 hmem
      obtain ⟨before, after, rfl⟩ := List.append_of_mem hagain
      obtain ⟨t, hbefore, hafter⟩ := hn.exists_of_append
      cases hafter with
      | cons hr' hc' _ =>
        rw [hname, hc] at hc'
        obtain rfl := Option.some.inj hc'
        -- The component is the one that the chain came from: between the two it is a round.
        have hround : doc.Chain next (before ++ [again]) next :=
          hbefore.concat hr' (hname ▸ hc)
        obtain ⟨texts', hlong, h'⟩ := hround.exists_rounds (by simp) n
        exact ⟨texts', next, hlong, h'⟩
    · refine ih fun hnodup => hback ?_
      rw [List.map_cons]
      exact List.nodup_cons.2 ⟨hmem, hnodup⟩

/-- Where no reference can be followed, no chain goes on. -/
theorem length_le_of_stuck (h : doc.Chain s texts t)
    (hstuck : ∀ r, t.reference = some r → doc.component? (referenceName r) = none)
    (h' : doc.Chain s texts' u) : texts'.length ≤ texts.length := by
  refine Nat.le_of_not_lt fun hlt => ?_
  obtain ⟨rest, rfl, hrest⟩ := h.exists_rest h' (Nat.le_of_lt hlt)
  cases hrest with
  | nil => simp at hlt
  | cons hr hc _ =>
    rw [hstuck _ hr] at hc
    cases hc

end Chain

/-- A schema leads to where its chain finds no more references. -/
theorem leads_iff {n : Nat} :
    doc.Leads s n t ↔ t.reference = none ∧ ∃ texts, texts.length = n ∧ doc.Chain s texts t := by
  constructor
  · intro h
    refine ⟨h.reference_eq_none, ?_⟩
    induction h with
    | here => exact ⟨[], rfl, .nil _⟩
    | on hr hc _ ih =>
      obtain ⟨texts, rfl, hchain⟩ := ih
      exact ⟨_ :: texts, rfl, .cons hr hc hchain⟩
  · rintro ⟨ht, texts, rfl, hchain⟩
    induction hchain with
    | nil => exact .here ht
    | cons hr hc _ ih => exact .on hr hc (ih ht)

/-! ## Where following stops -/

/-- What following references comes to at the end of a chain. -/
inductive Ending (doc : Document) (texts : List String) (u : Schema) :
    Except ReferenceFault Schema → Prop
  /-- There is no reference. -/
  | found (h : u.reference = none) : Ending doc texts u (.ok u)
  /-- There is a new reference, and its component is missing. -/
  | missing {reference : String} (h : u.reference = some reference)
      (hl : texts.length < maxHops) (hn : reference ∉ texts)
      (hc : doc.component? (referenceName reference) = none) :
      Ending doc texts u (.error (.missing reference))
  /-- There is a reference text that was met before. -/
  | again {reference : String} (h : u.reference = some reference)
      (hl : texts.length < maxHops) (hm : reference ∈ texts) :
      Ending doc texts u (.error (.circular reference))
  /-- There is a reference after as many as are allowed. -/
  | tooFar {reference : String} (h : u.reference = some reference)
      (hl : texts.length = maxHops) : Ending doc texts u (.error (.circular reference))

namespace Ending

variable {x x' : Except ReferenceFault Schema}

/-- A chain of different texts that is not too long does not go on where it has its end. -/
theorem eq_nil (hx : doc.Ending texts u x) (h : doc.Chain u rest v) (hn : (texts ++ rest).Nodup)
    (hl : (texts ++ rest).length ≤ maxHops) : rest = [] := by
  cases h with
  | nil => rfl
  | @cons _ _ _ reference rest hr hc _ =>
    have hnew : reference ∉ texts := fun hmem =>
      (List.nodup_append.1 hn).2.2 _ hmem _ List.mem_cons_self rfl
    have hroom : texts.length < maxHops := by
      rw [List.length_append, List.length_cons] at hl
      omega
    cases hx with
    | found h => rw [hr] at h; cases h
    | missing h _ _ hc' =>
      obtain rfl := Option.some.inj (hr.symm.trans h)
      rw [hc] at hc'
      cases hc'
    | again h _ hm =>
      obtain rfl := Option.some.inj (hr.symm.trans h)
      exact absurd hm hnew
    | tooFar _ hl' => omega

/-- At the end of a chain following references comes to one thing. -/
theorem eq_of_same (hx : doc.Ending texts u x) (hx' : doc.Ending texts u x') : x = x' := by
  cases hx <;> cases hx' <;> simp_all

/-- A schema has one end. -/
theorem unique (hx : doc.Ending texts u x) (h : doc.Chain s texts u) (hn : texts.Nodup)
    (hl : texts.length ≤ maxHops) (hx' : doc.Ending texts' v x') (h' : doc.Chain s texts' v)
    (hn' : texts'.Nodup) (hl' : texts'.length ≤ maxHops) : x = x' := by
  rcases Nat.le_total texts.length texts'.length with hle | hle
  · obtain ⟨rest, rfl, hrest⟩ := h.exists_rest h' hle
    obtain rfl := hx.eq_nil hrest hn' hl'
    cases hrest
    rw [List.append_nil] at hx'
    exact hx.eq_of_same hx'
  · obtain ⟨rest, rfl, hrest⟩ := h'.exists_rest h hle
    obtain rfl := hx'.eq_nil hrest hn hl
    cases hrest
    rw [List.append_nil] at hx
    exact hx.eq_of_same hx'

end Ending

/-- **Following references stops at an end**, after as many texts as were met before and as many
more as are allowed. -/
theorem exists_ending_of_follow {seen : List String} {hops : Nat}
    (h : doc.Chain s seen.reverse u) (hn : seen.Nodup) (hl : seen.length + hops = maxHops) :
    ∃ texts v, texts.Nodup ∧ texts.length ≤ maxHops ∧ doc.Chain s texts v ∧
      doc.Ending texts v (doc.follow seen u hops) := by
  have hn' : seen.reverse.Nodup := List.nodup_reverse.2 hn
  have hl' : seen.reverse.length + hops = maxHops := by rwa [List.length_reverse]
  induction hops generalizing seen u with
  | zero =>
    refine ⟨seen.reverse, u, hn', Nat.le_of_eq hl', h, ?_⟩
    cases hr : u.reference with
    | none => simpa [follow, hr] using Ending.found hr
    | some reference => simpa [follow, hr] using Ending.tooFar hr hl'
  | succ hops ih =>
    have hroom : seen.reverse.length < maxHops := by omega
    cases hr : u.reference with
    | none =>
      exact ⟨seen.reverse, u, hn', Nat.le_of_lt hroom, h, by simpa [follow, hr] using .found hr⟩
    | some reference =>
      by_cases hmem : reference ∈ seen
      · refine ⟨seen.reverse, u, hn', Nat.le_of_lt hroom, h, ?_⟩
        simpa [follow, hr, hmem] using Ending.again hr hroom (List.mem_reverse.2 hmem)
      · cases hc : doc.component? (referenceName reference) with
        | none =>
          refine ⟨seen.reverse, u, hn', Nat.le_of_lt hroom, h, ?_⟩
          have hnew : reference ∉ seen.reverse := fun h => hmem (List.mem_reverse.1 h)
          simpa [follow, hr, hmem, hc] using Ending.missing hr hroom hnew hc
        | some next =>
          have hnext : doc.Chain s (reference :: seen).reverse next := by
            rw [List.reverse_cons]
            exact h.concat hr hc
          have hnodup : (reference :: seen).Nodup := List.nodup_cons.2 ⟨hmem, hn⟩
          have hlength : (reference :: seen).length + hops = maxHops := by
            rw [List.length_cons]
            omega
          have hfollow : doc.follow seen u (hops + 1) =
              doc.follow (reference :: seen) next hops := by
            simp [follow, hr, hmem, hc]
          rw [hfollow]
          exact ih hnext hnodup hlength (List.nodup_reverse.2 hnodup)
            (by rwa [List.length_reverse])

/-- **What comes of following references** is what it comes to at the one end that its chain has. -/
theorem dereference_eq_iff {x : Except ReferenceFault Schema} :
    doc.dereference s = x ↔ ∃ texts u, texts.Nodup ∧ texts.length ≤ maxHops ∧
      doc.Chain s texts u ∧ doc.Ending texts u x := by
  have hstart : doc.Chain s ([] : List String).reverse s := .nil s
  obtain ⟨texts, u, hn, hl, hc, he⟩ :=
    exists_ending_of_follow hstart List.nodup_nil (Nat.zero_add maxHops)
  constructor
  · rintro rfl
    exact ⟨texts, u, hn, hl, hc, he⟩
  · rintro ⟨texts', u', hn', hl', hc', he'⟩
    exact he.unique hc hn hl he' hc' hn' hl'

/-- A schema stands for one without a reference that its chain comes to in at most 32 steps. -/
def StandsFor (doc : Document) (s t : Schema) : Prop :=
  t.reference = none ∧ ∃ texts, texts.length ≤ 32 ∧ doc.Chain s texts t

/-- A chain of at most 31 different reference texts comes to a new one whose component is
missing. -/
def Dangles (doc : Document) (s : Schema) (reference : String) : Prop :=
  ∃ texts u, texts.length ≤ 31 ∧ texts.Nodup ∧ doc.Chain s texts u ∧
    u.reference = some reference ∧ reference ∉ texts ∧
    doc.component? (referenceName reference) = none

theorem dereference_eq_ok_iff_standsFor : doc.dereference s = .ok t ↔ doc.StandsFor s t := by
  rw [dereference_eq_ok_iff]
  constructor
  · rintro ⟨n, hn, hl⟩
    obtain ⟨ht, texts, rfl, hc⟩ := leads_iff.1 hl
    exact ⟨ht, texts, hn, hc⟩
  · rintro ⟨ht, texts, hn, hc⟩
    exact ⟨_, hn, leads_iff.2 ⟨ht, texts, rfl, hc⟩⟩

theorem dereference_eq_missing_iff :
    doc.dereference s = .error (.missing reference) ↔ doc.Dangles s reference := by
  rw [dereference_eq_iff]
  constructor
  · rintro ⟨texts, u, hn, -, hc, he⟩
    cases he with
    | missing hr hl hnew hmissing =>
      exact ⟨texts, u, Nat.le_of_lt_succ hl, hn, hc, hr, hnew, hmissing⟩
  · rintro ⟨texts, u, hl, hn, hc, hr, hnew, hmissing⟩
    have hlt : texts.length < maxHops := Nat.lt_succ_of_le hl
    exact ⟨texts, u, hn, Nat.le_of_lt hlt, hc, .missing hr hlt hnew hmissing⟩

/-- A chain that comes back to a component neither stands for a schema nor finds one missing. -/
theorem exists_circular_of_back (h : doc.Chain s texts u)
    (hback : ¬ (texts.map referenceName).Nodup) :
    ∃ reference, doc.dereference s = .error (.circular reference) := by
  cases hd : doc.dereference s with
  | ok t =>
    obtain ⟨ht, texts', -, hc⟩ := dereference_eq_ok_iff_standsFor.1 hd
    obtain ⟨longer, v, hlong, hlonger⟩ := h.exists_longer hback (texts'.length + 1)
    have hle := hc.length_le_of_stuck (fun r hr => by rw [ht] at hr; cases hr) hlonger
    omega
  | error fault =>
    cases fault with
    | circular reference => exact ⟨reference, rfl⟩
    | missing reference =>
      obtain ⟨texts', v, -, -, hc, hr, -, hmissing⟩ := dereference_eq_missing_iff.1 hd
      obtain ⟨longer, w, hlong, hlonger⟩ := h.exists_longer hback (texts'.length + 1)
      have hle := hc.length_le_of_stuck (fun r hr' => by
        obtain rfl := Option.some.inj (hr.symm.trans hr')
        exact hmissing) hlonger
      omega

/-- **The outcome of following references.**  It is a schema exactly if the given one stands for it,
and that schema stands for itself; a component is missing exactly if the chain comes to it; in all
other cases following is given up.  A chain that comes back to a component is always given up, under
whatever texts it comes back. -/
theorem dereference_outcome (doc : Document) (s : Schema) :
    (∀ t, doc.dereference s = .ok t ↔ doc.StandsFor s t) ∧
    (∀ t, doc.dereference s = .ok t → doc.dereference t = .ok t) ∧
    (∀ reference, doc.dereference s = .error (.missing reference) ↔ doc.Dangles s reference) ∧
    ((∃ reference, doc.dereference s = .error (.circular reference)) ↔
      (¬ ∃ t, doc.StandsFor s t) ∧ ¬ ∃ reference, doc.Dangles s reference) ∧
    ∀ texts u, doc.Chain s texts u → ¬ (texts.map referenceName).Nodup →
      ∃ reference, doc.dereference s = .error (.circular reference) := by
  refine ⟨fun t => dereference_eq_ok_iff_standsFor, fun t ht => ?_,
    fun reference => dereference_eq_missing_iff, ?_, fun texts u => exists_circular_of_back⟩
  · exact dereference_of_reference_eq_none (dereference_eq_ok_iff_standsFor.1 ht).1
  · simp only [← dereference_eq_ok_iff_standsFor, ← dereference_eq_missing_iff]
    cases doc.dereference s with
    | ok t => simp
    | error fault => cases fault <;> simp

/-- A document with two components that stand for each other, and one that stands for nothing. -/
def mirroredBooks : Document where
  openapi := some "3.1.0"
  components := [
    ("Book", .refTo "#/components/schemas/Volume"),
    ("Volume", .refTo "Book"),
    ("Shelf", .refTo "#/components/schemas/Board")]

/-- The two components refer to each other, one of them under two texts, and are given up; the board
of the shelf is missing. -/
theorem mirroredBooks_outcome :
    (∃ texts u, mirroredBooks.Chain (.refTo "#/components/schemas/Book") texts u ∧
      texts.Nodup ∧ ¬ (texts.map referenceName).Nodup) ∧
    (∃ reference, mirroredBooks.dereference (.refTo "#/components/schemas/Book") =
      .error (.circular reference)) ∧
    mirroredBooks.dereference (.refTo "Shelf") =
      .error (.missing "#/components/schemas/Board") ∧
    mirroredBooks.dereference (.typed "string") = .ok (.typed "string") := by
  have hstep : ∀ {reference name : String} {found : Schema}, referenceName reference = name →
      mirroredBooks.component? name = some found →
      mirroredBooks.component? (referenceName reference) = some found :=
    fun hname hfound => hname ▸ hfound
  have hbook : mirroredBooks.component? "Book" = some (.refTo "#/components/schemas/Volume") := rfl
  have hvolume : mirroredBooks.component? "Volume" = some (.refTo "Book") := rfl
  have hshelf : mirroredBooks.component? "Shelf" = some (.refTo "#/components/schemas/Board") := rfl
  have hboard : mirroredBooks.component? "Board" = none := rfl
  have hround : mirroredBooks.Chain (.refTo "#/components/schemas/Book")
      ["#/components/schemas/Book", "#/components/schemas/Volume", "Book"]
      (.refTo "#/components/schemas/Volume") :=
    .cons rfl (hstep (by decide +kernel) hbook) (.cons rfl (hstep (by decide +kernel) hvolume)
      (.cons rfl (hstep (by decide +kernel) hbook) (.nil _)))
  have hmissing : mirroredBooks.component? (referenceName "#/components/schemas/Board") = none := by
    rw [show referenceName "#/components/schemas/Board" = "Board" by decide +kernel, hboard]
  have hback : ¬ (["#/components/schemas/Book", "#/components/schemas/Volume", "Book"].map
      referenceName).Nodup := by decide +kernel
  refine ⟨⟨_, _, hround, by decide, hback⟩,
    (dereference_outcome mirroredBooks _).2.2.2.2 _ _ hround hback,
    ((dereference_outcome mirroredBooks _).2.2.1 _).2 ?_,
    ((dereference_outcome mirroredBooks _).1 _).2 ⟨rfl, [], Nat.zero_le _, .nil _⟩⟩
  exact ⟨["Shelf"], .refTo "#/components/schemas/Board", by decide, by decide,
    .cons rfl (hstep (by decide +kernel) hshelf) (.nil _), rfl, by decide, hmissing⟩

end ResourceCli.Document
