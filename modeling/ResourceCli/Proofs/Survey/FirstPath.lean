import ResourceCli.Proofs.Resource.MethodPath
import ResourceCli.Proofs.Survey.Attachment

/-!
# Which path a named method comes from

Several paths can call one method: with different slashes at their start, with and without the start
that is taken off, or because the paths of a document are only compared after both.  The method is
that of the first such path in the document that declares a verb, and it is sent with `POST` if that
path declares it and else with its first verb (`PathItem.preferredVerb?`).  The other paths that
call it change nothing.

A path calls one method of one pattern (`splitCustomMethod_eq_some_iff`), and the methods of a
pattern go to one resource, so what a path declares never reaches two resources
(`Document.resources_named`).
-/

namespace ResourceCli

/-- The verb that a method of a path is sent with: `POST`, or else the first one that is
declared. -/
def PathItem.preferredVerb? (item : PathItem) : Option Verb :=
  [.post, .get, .put, .patch, .delete].find? fun verb => (item.operation verb).isSome

/-- A path calls the method of a name on a pattern: without what is taken off its start and without
slashes there, it is the pattern, a colon and the name. -/
def Document.Calls (start : String) (entry : String × PathItem) (pattern name : String) : Prop :=
  Text.dropStartChar '/' (surveyedPath start entry.1) = pattern ++ ":" ++ name

/-- The verb that is kept of a path is the preferred one. -/
theorem Document.keptVerb?_map_fst (item : PathItem) :
    (keptVerb? item).map Prod.fst = item.preferredVerb? := by
  obtain ⟨get, put, post, patch, delete⟩ := item
  cases get <;> cases put <;> cases post <;> cases patch <;> cases delete <;> rfl

/-- A path has a preferred verb if it declares one. -/
theorem PathItem.preferredVerb?_eq_none_iff {item : PathItem} :
    item.preferredVerb? = none ↔ item.declaredOperations = [] := by
  obtain ⟨get, put, post, patch, delete⟩ := item
  cases get <;> cases put <;> cases post <;> cases patch <;> cases delete <;>
    simp [preferredVerb?, declaredOperations, operation, Verb.all]

/-! ## The first method of a name -/

/-- A method that is kept was there before, or it is the first one of a new name. -/
theorem find?_of_mem_foldl_keep {l methods : List CustomMethod} {m : CustomMethod}
    (h : m ∈ l.foldl keep methods) :
    m ∈ methods ∨ m.name ∉ methods.map CustomMethod.name ∧
      l.find? (·.name == m.name) = some m := by
  induction l generalizing methods with
  | nil => exact .inl h
  | cons k l ih =>
    rw [List.foldl_cons] at h
    by_cases hk : k.name ∈ methods.map CustomMethod.name
    · rw [keep_of_mem hk] at h
      refine (ih h).imp_right fun ⟨hnew, hfirst⟩ => ⟨hnew, ?_⟩
      have hne : (k.name == m.name) = false := beq_eq_false_iff_ne.2 fun he => hnew (he ▸ hk)
      rw [List.find?_cons, hne]
      exact hfirst
    · rw [keep_of_notMem hk] at h
      rcases ih h with hmem | ⟨hnew, hfirst⟩
      · rcases List.mem_append.1 hmem with hmem | hmem
        · exact .inl hmem
        · obtain rfl := List.mem_singleton.1 hmem
          exact .inr ⟨hk, List.find?_cons_of_pos (beq_self_eq_true _)⟩
      · rw [List.map_append, List.mem_append, not_or] at hnew
        have hne : (k.name == m.name) = false :=
          beq_eq_false_iff_ne.2 fun he => hnew.2 (List.mem_singleton.2 he.symm)
        refine .inr ⟨hnew.1, ?_⟩
        rw [List.find?_cons, hne]
        exact hfirst

namespace Document

variable {doc : Document} {given : Option String} {start : String} {g : ResourceGraph}

/-- **The first path of a method**: a method that is kept for a pattern is what a path declares for
it, and no path before that one declares a method of its name for the pattern. -/
theorem exists_first_of_mem_customsFor {pattern : String} {paths : List (String × PathItem)}
    {m : CustomMethod} (h : m ∈ doc.customsFor start pattern paths) :
    ∃ before entry after, paths = before ++ entry :: after ∧
      doc.customFor start pattern entry = some m ∧
      ∀ e ∈ before, ∀ m', doc.customFor start pattern e = some m' → m'.name ≠ m.name := by
  rcases find?_of_mem_foldl_keep h with h | ⟨-, hfirst⟩
  · cases h
  · rw [List.find?_eq_findSome?_guard] at hfirst
    obtain ⟨before, entry, after, k, hpaths, hk, hguard, hbefore⟩ :=
      exists_first_of_findSome?_filterMap hfirst
    obtain ⟨rfl, -⟩ := Option.guard_eq_some_iff.1 hguard
    refine ⟨before, entry, after, hpaths, hk, fun e he m' hm' hname => ?_⟩
    have hnone := hbefore e he m' hm'
    rw [Option.guard_eq_none_iff] at hnone
    exact absurd (beq_iff_eq.2 hname) (Bool.eq_false_iff.1 hnone)

/-- What a path declares for a pattern, it declares under the name that it calls. -/
theorem calls_of_customFor {pattern : String} {entry : String × PathItem} {m : CustomMethod}
    (h : doc.customFor start pattern entry = some m) : Calls start entry pattern m.name := by
  obtain ⟨name, hp, hm⟩ := customFor_eq_some_iff.1 h
  rw [(customMethod_cases hm).1]
  exact (splitCustomMethod_eq_some_iff.1 hp).1

/-- If one path declares a method for a pattern, every path that calls it is cut in the same way. -/
theorem splitCustomMethod_of_calls {pattern : String} {entry e : String × PathItem}
    {m : CustomMethod} (h : doc.customFor start pattern entry = some m)
    (hcalls : Calls start e pattern m.name) :
    splitCustomMethod? (surveyedPath start e.1) = some (pattern, m.name) := by
  obtain ⟨name, hp, hm⟩ := customFor_eq_some_iff.1 h
  rw [← (customMethod_cases hm).1] at hp
  exact splitCustomMethod_eq_some_iff.2 ⟨hcalls, (splitCustomMethod_eq_some_iff.1 hp).2⟩

/-- A method is sent with the preferred verb of the path that declares it. -/
theorem preferredVerb_of_customFor {pattern : String} {entry : String × PathItem}
    {m : CustomMethod} (h : doc.customFor start pattern entry = some m) :
    ∃ verb, entry.2.preferredVerb? = some verb ∧ m.verb = verb.name := by
  obtain ⟨name, -, hm⟩ := customFor_eq_some_iff.1 h
  obtain ⟨-, ⟨verb, op, hkept, hverb, -⟩, -⟩ := customMethod_cases hm
  exact ⟨verb, by rw [← keptVerb?_map_fst, hkept, Option.map_some], hverb⟩

/-- What is said of a named method of a resource with a pattern. -/
structure TakenFrom (doc : Document) (start pattern : String) (m : CustomMethod) : Prop where
  /-- It has a name. -/
  named : m.name ≠ ""
  /-- It is that of the first path that calls it and declares a verb, and sent with the preferred
  one. -/
  first : ∃ before entry after verb, doc.paths = before ++ entry :: after ∧
    Calls start entry pattern m.name ∧ entry.2.preferredVerb? = some verb ∧ m.verb = verb.name ∧
    ∀ e ∈ before, Calls start e pattern m.name → e.2.preferredVerb? = none
  /-- It is sent data with `POST` only. -/
  posted : m.request.isSome = true → m.verb = "POST"
  /-- The schema of what it is sent is no reference. -/
  request : ∀ s ∈ m.request, s.reference = none
  /-- The schema of what it answers is no reference. -/
  response : ∀ s ∈ m.response, s.reference = none

/-- The first path that declares a method is the first one that calls it and declares a verb: of a
path before it that calls the method and declares a verb there would be a method too. -/
theorem takenFrom_of_mem_customsFor (h : doc.resources given start = .ok g) {pattern : String}
    {m : CustomMethod} (hm : m ∈ doc.customsFor start pattern doc.paths) :
    doc.TakenFrom start pattern m := by
  obtain ⟨before, entry, after, hpaths, hfor, hbefore⟩ := exists_first_of_mem_customsFor hm
  obtain ⟨verb, hverb, hname⟩ := preferredVerb_of_customFor hfor
  have hwell := wellMade_of_customFor hfor
  refine ⟨hwell.named, ⟨before, entry, after, verb, hpaths, calls_of_customFor hfor, hverb, hname,
    fun e he hcalls => ?_⟩, fun hsome => ?_, hwell.request, hwell.response⟩
  · by_contra hdeclares
    have hmem : e ∈ doc.paths := hpaths ▸ List.mem_append_left _ he
    obtain ⟨m', hm', hsame⟩ := exists_customFor h hmem (splitCustomMethod_of_calls hfor hcalls)
      (mt PathItem.preferredVerb?_eq_none_iff.2 hdeclares)
    exact hbefore e he m' hm' hsame
  · obtain ⟨verb', hverb', hpost⟩ := hwell.verb
    rw [hverb', hpost hsome]
    rfl

/-- **The named methods of a resource.**  They have different names, and each of them is that of the
first path that calls it on the resource's pattern and declares a verb.  No path calls a method of
two resources. -/
theorem resources_named (h : doc.resources given start = .ok g) :
    (∀ r ∈ g.resources, (r.customs.map CustomMethod.name).Nodup ∧
      ∀ m ∈ r.customs, doc.TakenFrom start r.patternPath m) ∧
    ∀ entry ∈ doc.paths, ∀ i j r q, g.resource? i = some r → g.resource? j = some q →
      ∀ m ∈ r.customs, ∀ n ∈ q.customs, Calls start entry r.patternPath m.name →
        Calls start entry q.patternPath n.name → i = j := by
  have hfirst : ∀ i r, g.resource? i = some r → ∀ m ∈ r.customs,
      g.patterns.findIdx? (· == r.patternPath) = some i ∧
        m ∈ doc.customsFor start r.patternPath doc.paths := by
    intro i r hr m hm
    rw [resources_customs h hr] at hm
    split at hm
    · rename_i hi
      exact ⟨hi, hm⟩
    · cases hm
  refine ⟨fun r hr => ⟨(customs_wellMade h hr).1, fun m hm => ?_⟩, ?_⟩
  · obtain ⟨i, hi⟩ := List.mem_iff_getElem?.1 hr
    exact takenFrom_of_mem_customsFor h (hfirst i r hi m hm).2
  · intro entry _ i j r q hr hq m hm n hn hcalls hcalls'
    obtain ⟨hi, hm⟩ := hfirst i r hr m hm
    obtain ⟨hj, hn⟩ := hfirst j q hq n hn
    obtain ⟨_, -, hm⟩ := mem_customsFor hm
    obtain ⟨_, -, hn⟩ := mem_customsFor hn
    have hsplit := splitCustomMethod_of_calls hm hcalls
    rw [splitCustomMethod_of_calls hn hcalls', Option.some.injEq, Prod.mk.injEq] at hsplit
    rw [← hsplit.1, hj, Option.some.injEq] at hi
    exact hi.symm

/-- A document with books that can be archived, by several paths that call the same method.  The
first of them declares no verb. -/
def archivedBooks : Document where
  openapi := some "3.1.0"
  servers := [{ url := "http://localhost" }]
  paths := [
    ("/v1/books/{book}", {
      get := some { responses := answering (.refTo "#/components/schemas/Book") } }),
    ("/v1/books/{book}:archive", {}),
    ("//books/{book}:archive", { put := some {}, get := some {} }),
    ("/books/{book}:archive", { post := some {} })]
  components := [("Book", .typed "object")]

/-- Books are archived as the second path says that calls it, with its first verb; what the last
path declares goes to no other resource. -/
theorem archivedBooks_named : ∃ g r m, archivedBooks.resources none "/v1" = .ok g ∧
    g.resource? 0 = some r ∧ m ∈ r.customs ∧ m.name = "archive" ∧ m.verb = "GET" ∧
    (r.customs.map CustomMethod.name).Nodup ∧
    archivedBooks.TakenFrom "/v1" "books/{book}" m ∧
    ∀ j q, g.resource? j = some q → ∀ n ∈ q.customs,
      Calls "/v1" ("/books/{book}:archive", { post := some {} }) q.patternPath n.name → 0 = j := by
  obtain ⟨g, hg, hfacts⟩ := exists_ok_of_map_toOption
    (f := fun g : ResourceGraph => (g.resource? 0).map fun r =>
      (r.patternPath, r.customs.map fun m => (m.name, m.verb)))
    (show (archivedBooks.resources none "/v1").toOption.map _ =
      some (some ("books/{book}", [("archive", "GET")])) by decide +kernel)
  obtain ⟨r, hr, hfacts⟩ := Option.map_eq_some_iff.1 hfacts
  obtain ⟨hpattern, hcustoms⟩ := Prod.mk.inj hfacts
  obtain ⟨m, hm, hfacts⟩ := List.mem_map.1 (hcustoms ▸ List.mem_singleton.2 rfl)
  obtain ⟨hname, hverb⟩ := Prod.mk.inj hfacts
  obtain ⟨hnamed, halone⟩ := resources_named hg
  obtain ⟨hdistinct, htaken⟩ := hnamed r (List.mem_of_getElem? hr)
  refine ⟨g, r, m, hg, hr, hm, hname, hverb, hdistinct, hpattern ▸ htaken m hm, ?_⟩
  intro j q hq n hn
  refine halone _ (List.mem_cons_of_mem _ (List.mem_cons_of_mem _ (List.mem_cons_of_mem _
    List.mem_cons_self))) 0 j r q hr hq m hm n hn ?_
  rw [hpattern, hname, Calls]
  decide +kernel

end Document
end ResourceCli
