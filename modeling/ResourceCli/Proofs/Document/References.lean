import ResourceCli.Document.Basic

/-!
# Where references lead

A schema without a reference stands for itself, and one with a reference leads to the component of
that name.  `Document.Leads` counts the steps; where they end is settled by the document alone, so a
schema that leads anywhere leads there in one way (`Leads.unique`).  Following references gives up
after a number of steps, or on a reference text met before; the latter only happens when they would
go round for ever.  So what a schema stands for is where it leads, if that is not too far
(`dereference_eq_ok_iff`).
-/

namespace ResourceCli.Document

variable {doc : Document} {s t t' : Schema} {n n' : Nat} {reference : String}

/-- A schema leads to a schema without a reference, in so many steps. -/
inductive Leads (doc : Document) : Schema → Nat → Schema → Prop
  /-- A schema without a reference stands for itself. -/
  | here {s : Schema} (h : s.reference = none) : Leads doc s 0 s
  /-- A reference leads on from its component. -/
  | on {s next t : Schema} {reference : String} {n : Nat} (h : s.reference = some reference)
      (hc : doc.component? (referenceName reference) = some next) (hn : Leads doc next n t) :
      Leads doc s (n + 1) t

namespace Leads

/-- Where references lead there is none. -/
theorem reference_eq_none (h : Leads doc s n t) : t.reference = none := by
  induction h with
  | here h => exact h
  | on _ _ _ ih => exact ih

/-- A schema leads to one schema, in one way. -/
theorem unique (h : Leads doc s n t) (h' : Leads doc s n' t') : n = n' ∧ t = t' := by
  induction h generalizing n' with
  | here h =>
    cases h' with
    | here => exact ⟨rfl, rfl⟩
    | on h' => rw [h] at h'; cases h'
  | on h hc _ ih =>
    cases h' with
    | here h' => rw [h] at h'; cases h'
    | on h' hc' hn' =>
      obtain rfl := Option.some.inj (h.symm.trans h')
      obtain rfl := Option.some.inj (hc.symm.trans hc')
      obtain ⟨rfl, rfl⟩ := ih hn'
      exact ⟨rfl, rfl⟩

end Leads

/-- What is followed leads there, in at most as many steps as are allowed. -/
theorem leads_of_follow {seen : List String} {hops : Nat} (h : doc.follow seen s hops = .ok t) :
    ∃ n ≤ hops, doc.Leads s n t := by
  induction hops generalizing seen s with
  | zero =>
    rw [follow] at h
    cases hr : s.reference with
    | none => rw [hr] at h; cases h; exact ⟨0, Nat.le_refl _, .here hr⟩
    | some reference => rw [hr] at h; cases h
  | succ hops ih =>
    rw [follow] at h
    cases hr : s.reference with
    | none => rw [hr] at h; cases h; exact ⟨0, Nat.zero_le _, .here hr⟩
    | some reference =>
      simp only [hr] at h
      split at h
      · cases h
      · cases hc : doc.component? (referenceName reference) with
        | none => rw [hc] at h; cases h
        | some next =>
          rw [hc] at h
          obtain ⟨n, hn, hl⟩ := ih h
          exact ⟨n + 1, Nat.succ_le_succ hn, .on hr hc hl⟩

/-- What a schema leads to is followed: the reference texts met before lead there from further
away, so none of them is met again. -/
theorem follow_of_leads {seen : List String} {hops : Nat} (h : doc.Leads s n t) (hn : n ≤ hops)
    (hseen : ∀ reference ∈ seen, ∃ next k, doc.component? (referenceName reference) = some next ∧
      doc.Leads next k t ∧ n ≤ k) :
    doc.follow seen s hops = .ok t := by
  induction h generalizing seen hops with
  | here hr => cases hops <;> simp [follow, hr]
  | @on s next t reference n hr hc hl ih =>
    obtain ⟨hops, rfl⟩ : ∃ m, hops = m + 1 := ⟨hops - 1, by omega⟩
    have hnew : reference ∉ seen := by
      intro hmem
      obtain ⟨next', k, hc', hl', hk⟩ := hseen reference hmem
      obtain rfl := Option.some.inj (hc.symm.trans hc')
      obtain ⟨rfl, -⟩ := hl.unique hl'
      omega
    rw [follow, hr]
    dsimp only
    rw [if_neg (by simpa using hnew), hc]
    refine ih (by omega) fun r hmem => ?_
    rcases List.mem_cons.mp hmem with rfl | hmem
    · exact ⟨next, n, hc, hl, Nat.le_refl _⟩
    · obtain ⟨next', k, hc', hl', hk⟩ := hseen r hmem
      exact ⟨next', k, hc', hl', by omega⟩

/-- **A schema stands for what it leads to**, if that is not too far. -/
theorem dereference_eq_ok_iff :
    doc.dereference s = .ok t ↔ ∃ n ≤ maxHops, doc.Leads s n t := by
  constructor
  · exact leads_of_follow
  · rintro ⟨n, hn, hl⟩
    exact follow_of_leads hl hn fun _ hmem => by cases hmem

end ResourceCli.Document
