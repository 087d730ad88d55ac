import ResourceCli.Proofs.Yaml.Scanned

/-!
# The nodes of a mapping

The node that the tokens of a mapping in block layout are built to.  Each step of building takes the
tokens of a piece and leaves those behind it; the fuel that it is given is at least twice the number
of the tokens.

* `Mapping.build`: the entries of a mapping.
* `read?_document`: what a document is read as.
-/

namespace ResourceCli.Yaml

open Build

/-- The state of building with other tokens left. -/
def Build.before (b : Build) (ts : List Token) : Build := { b with tokens := ts }

section Builders

variable {α β : Type} {b : Build} {t u : Token} {ts rest : List Token}

theorem build_bind {p : BuildM α} {f : α → BuildM β} {a : α} {b b' : Build}
    (h : p b = some (a, b')) : (p >>= f) b = f a b' := by
  show StateT.bind p f b = _
  unfold StateT.bind
  rw [h]
  rfl

theorem peek_before : peek (b.before (t :: ts)) = some (t, b.before (t :: ts)) := rfl

theorem drop_before : drop (b.before (t :: ts)) = some ((), b.before ts) := rfl

theorem take?_self : take? t (b.before (t :: ts)) = some (true, b.before ts) := by
  rw [take?, build_bind peek_before, if_pos (beq_self_eq_true t)]
  rfl

theorem take?_ne (h : u ≠ t) :
    take? t (b.before (u :: ts)) = some (false, b.before (u :: ts)) := by
  rw [take?, build_bind peek_before, if_neg (by rwa [beq_iff_eq])]
  rfl

/-- Whether a token starts a node without properties. -/
def startsNode : Token → Bool
  | .scalar _ _ | .blockMapStart | .blockListStart | .blockEntry => true
  | _ => false

theorem node_before {block indentless : Bool} (ht : startsNode t = true) (fuel : Nat) :
    node block indentless (fuel + 1) (b.before (t :: ts)) =
      body block indentless false none fuel (b.before (t :: ts)) := by
  rw [node, build_bind peek_before]
  cases t <;> first | rfl | cases ht

theorem node_scalar (block indentless : Bool) (text : String) (style : Style) (fuel : Nat) :
    node block indentless (fuel + 2) (b.before (.scalar text style :: ts)) =
      some (.scalar none text style, b.before ts) := by
  rw [node_before rfl, body, build_bind peek_before]
  rfl

theorem node_map {entries : List (Node × Node)} {b' : Build} (indentless : Bool) {fuel : Nat}
    (h : blockEntries fuel (b.before ts) = some (entries, b')) :
    node true indentless (fuel + 2) (b.before (.blockMapStart :: ts)) =
      some (.map none entries, b') := by
  have hbody : body true indentless false none (fuel + 1) (b.before (.blockMapStart :: ts)) =
      (drop >>= fun _ => blockEntries fuel >>= fun entries => pure (.map none entries))
        (b.before (.blockMapStart :: ts)) := by
    rw [body, build_bind peek_before]
    cases indentless <;> rfl
  rw [node_before rfl, hbody, build_bind drop_before, build_bind h]
  rfl

theorem node_list {nodes : List Node} {b' : Build} (indentless : Bool) {fuel : Nat}
    (h : blockItems fuel (b.before ts) = some (nodes, b')) :
    node true indentless (fuel + 2) (b.before (.blockListStart :: ts)) =
      some (.list none nodes, b') := by
  have hbody : body true indentless false none (fuel + 1) (b.before (.blockListStart :: ts)) =
      (drop >>= fun _ => blockItems fuel >>= fun nodes => pure (.list none nodes))
        (b.before (.blockListStart :: ts)) := by
    rw [body, build_bind peek_before]
    cases indentless <;> rfl
  rw [node_before rfl, hbody, build_bind drop_before, build_bind h]
  rfl

theorem node_indentless {nodes : List Node} {b' : Build} {fuel : Nat}
    (h : indentlessItems fuel (b.before (.blockEntry :: ts)) = some (nodes, b')) :
    node true true (fuel + 2) (b.before (.blockEntry :: ts)) = some (.list none nodes, b') := by
  rw [node_before rfl, body, build_bind peek_before]
  exact build_bind h

theorem blockEntries_entry {text : String} {style : Style} {value : Node}
    {entries : List (Node × Node)} {b' : Build} {fuel : Nat} (ht : startsNode t = true)
    (hvalue : node true true (fuel + 2) (b.before (t :: ts)) = some (value, b.before rest))
    (hmore : blockEntries (fuel + 2) (b.before rest) = some (entries, b')) :
    blockEntries (fuel + 3) (b.before (.key :: .scalar text style :: .value :: t :: ts)) =
      some ((.scalar none text style, value) :: entries, b') := by
  have hends : endsBlockValue t = false := by
    cases t <;> first | rfl | cases ht
  rw [blockEntries, build_bind take?_self, if_pos rfl, build_bind peek_before]
  refine (build_bind (node_scalar true true text style fuel)).trans ?_
  refine (build_bind take?_self).trans ((build_bind peek_before).trans ?_)
  dsimp only
  rw [hends, if_neg Bool.false_ne_true]
  exact (build_bind hvalue).trans (build_bind hmore)

theorem blockEntries_end (fuel : Nat) :
    blockEntries (fuel + 1) (b.before (.blockEnd :: ts)) = some ([], b.before ts) := by
  rw [blockEntries, build_bind (take?_ne (by decide)), if_neg Bool.false_ne_true,
    build_bind take?_self]
  rfl

theorem blockItems_item {value : Node} {nodes : List Node} {b' : Build} {fuel : Nat}
    (ht : t ≠ .blockEntry ∧ startsNode t = true)
    (hvalue : node true false fuel (b.before (t :: ts)) = some (value, b.before rest))
    (hmore : blockItems fuel (b.before rest) = some (nodes, b')) :
    blockItems (fuel + 1) (b.before (.blockEntry :: t :: ts)) = some (value :: nodes, b') := by
  have hempty : (t == .blockEntry || t == .blockEnd) = false := by
    cases t <;> first | rfl | exact absurd rfl ht.1 | cases ht.2
  rw [blockItems, build_bind take?_self, if_pos rfl, build_bind peek_before]
  dsimp only
  rw [hempty, if_neg Bool.false_ne_true]
  exact (build_bind hvalue).trans (build_bind hmore)

theorem blockItems_end (fuel : Nat) :
    blockItems (fuel + 1) (b.before (.blockEnd :: ts)) = some ([], b.before ts) := by
  rw [blockItems, build_bind (take?_ne (by decide)), if_neg Bool.false_ne_true,
    build_bind take?_self]
  rfl

theorem indentlessItems_item {value : Node} {nodes : List Node} {b' : Build} {fuel : Nat}
    (ht : t ≠ .blockEntry ∧ startsNode t = true)
    (hvalue : node true false fuel (b.before (t :: ts)) = some (value, b.before rest))
    (hmore : indentlessItems fuel (b.before rest) = some (nodes, b')) :
    indentlessItems (fuel + 1) (b.before (.blockEntry :: t :: ts)) = some (value :: nodes, b') := by
  have hempty : (t == .blockEntry || endsBlockValue t) = false := by
    cases t <;> first | rfl | exact absurd rfl ht.1 | cases ht.2
  rw [indentlessItems, build_bind take?_self, if_pos rfl, build_bind peek_before]
  dsimp only
  rw [hempty, if_neg Bool.false_ne_true]
  exact (build_bind hvalue).trans (build_bind hmore)

theorem indentlessItems_end (ht : t ≠ .blockEntry) (fuel : Nat) :
    indentlessItems (fuel + 1) (b.before (t :: ts)) = some ([], b.before (t :: ts)) := by
  rw [indentlessItems, build_bind (take?_ne ht)]
  rfl

end Builders

/-! ## Mappings and lists -/

theorem Listing.exists_tokens (l : Listing) : ∃ ts, l.tokens = .blockEntry :: ts := by
  have hitem (i : Item) : ∃ ts, i.tokens = .blockEntry :: ts := by
    cases i <;> exact ⟨_, rfl⟩
  cases l with
  | last i => exact hitem i
  | item i empty more =>
    obtain ⟨ts, hts⟩ := hitem i
    exact ⟨ts ++ more.tokens, congrArg (· ++ more.tokens) hts⟩

theorem Value.exists_tokens (v : Value) : ∃ t ts, v.tokens = t :: ts ∧ startsNode t = true := by
  match v with
  | .phrase _ p _ => exact ⟨_, _, rfl, rfl⟩
  | .literal _ _ _ l => exact ⟨_, _, rfl, rfl⟩
  | .map _ _ _ m => exact ⟨_, _, rfl, rfl⟩
  | .list _ _ 0 l =>
    obtain ⟨ts, hts⟩ := l.exists_tokens
    exact ⟨_, ts, hts, rfl⟩
  | .list _ _ (_ + 1) l => exact ⟨_, _, rfl, rfl⟩

theorem Item.two_le_length (i : Item) : 2 ≤ i.tokens.length := by
  cases i <;> exact Nat.le_add_left 2 _

theorem Mapping.exists_tokens (m : Mapping) : ∃ ts, m.tokens = .key :: ts := by
  cases m <;> exact ⟨_, rfl⟩

mutual

/-- **The node of a value** is built from its tokens. -/
theorem Value.build (v : Value) (b : Build) {t : Token} (ht : t ≠ .blockEntry) (rest : List Token)
    (fuel : Nat) (hfuel : 2 * v.tokens.length + 1 ≤ fuel) :
    node true true fuel (b.before (v.tokens ++ t :: rest)) =
      some (v.node, b.before (t :: rest)) := by
  match v with
  | .phrase _ p _ =>
    obtain ⟨fuel, rfl⟩ : ∃ k, fuel = k + 2 := ⟨fuel - 2, by simp [Value.tokens] at hfuel; omega⟩
    exact node_scalar true true p.said p.style fuel
  | .literal _ _ _ l =>
    obtain ⟨fuel, rfl⟩ : ∃ k, fuel = k + 2 := ⟨fuel - 2, by simp [Value.tokens] at hfuel; omega⟩
    exact node_scalar true true l.said .literal fuel
  | .map _ _ _ m =>
    rw [Value.tokens, List.length_cons, List.length_append, List.length_singleton] at hfuel
    obtain ⟨fuel, rfl⟩ : ∃ k, fuel = k + 2 := ⟨fuel - 2, by omega⟩
    rw [Value.tokens, List.cons_append, List.append_assoc]
    exact node_map true (m.build b (t :: rest) fuel (by omega))
  | .list _ _ 0 l =>
    rw [Value.tokens] at hfuel ⊢
    obtain ⟨ts, hts⟩ := l.exists_tokens
    obtain ⟨fuel, rfl⟩ : ∃ k, fuel = k + 2 := ⟨fuel - 2, by
      rw [hts, List.length_cons] at hfuel
      omega⟩
    have hitems := l.build_indentless b ht rest fuel (by omega)
    rw [hts, List.cons_append] at hitems ⊢
    exact node_indentless hitems
  | .list _ _ (_ + 1) l =>
    rw [Value.tokens, List.length_cons, List.length_append, List.length_singleton] at hfuel
    obtain ⟨fuel, rfl⟩ : ∃ k, fuel = k + 2 := ⟨fuel - 2, by omega⟩
    rw [Value.tokens, List.cons_append, List.append_assoc]
    exact node_list true (l.build b (t :: rest) fuel (by omega))

/-- The entries of a mapping are built from their tokens. -/
theorem Mapping.build (m : Mapping) (b : Build) (rest : List Token) (fuel : Nat)
    (hfuel : 2 * m.tokens.length ≤ fuel) :
    blockEntries fuel (b.before (m.tokens ++ .blockEnd :: rest)) =
      some (m.entries, b.before rest) := by
  match m with
  | .last k v =>
    obtain ⟨t, ts, hts, ht⟩ := v.exists_tokens
    rw [Mapping.tokens, List.length_append, show k.tokens.length = 3 from rfl] at hfuel
    obtain ⟨fuel, rfl⟩ : ∃ j, fuel = j + 3 := ⟨fuel - 3, by omega⟩
    have hvalue := v.build b (show Token.blockEnd ≠ .blockEntry by decide) rest (fuel + 2)
      (by omega)
    rw [hts, List.cons_append] at hvalue
    rw [Mapping.tokens, List.append_assoc, hts]
    exact blockEntries_entry ht hvalue (blockEntries_end (fuel + 1))
  | .entry k v _ more =>
    obtain ⟨t, ts, hts, ht⟩ := v.exists_tokens
    obtain ⟨us, hus⟩ := more.exists_tokens
    rw [Mapping.tokens, List.length_append, List.length_append,
      show k.tokens.length = 3 from rfl] at hfuel
    obtain ⟨fuel, rfl⟩ : ∃ j, fuel = j + 3 := ⟨fuel - 3, by omega⟩
    have hvalue := v.build b (show Token.key ≠ .blockEntry by decide) (us ++ .blockEnd :: rest)
      (fuel + 2) (by omega)
    have hmore := more.build b rest (fuel + 2) (by omega)
    rw [hts, List.cons_append] at hvalue
    rw [hus, List.cons_append] at hmore
    rw [Mapping.tokens, List.append_assoc, List.append_assoc, hts, hus]
    exact blockEntries_entry ht hvalue hmore

/-- The node of an item is built from the tokens behind its dash. -/
theorem Item.build (i : Item) (b : Build) (rest : List Token) (fuel : Nat)
    (hfuel : 2 * i.tokens.length ≤ fuel + 2) : ∃ t ts, i.tokens = .blockEntry :: t :: ts ∧
      (t ≠ .blockEntry ∧ startsNode t = true) ∧
      node true false fuel (b.before (t :: (ts ++ rest))) = some (i.node, b.before rest) := by
  match i with
  | .phrase _ p _ =>
    obtain ⟨fuel, rfl⟩ : ∃ k, fuel = k + 2 := ⟨fuel - 2, by simp [Item.tokens] at hfuel; omega⟩
    exact ⟨_, _, rfl, ⟨nofun, rfl⟩, node_scalar true false p.said p.style fuel⟩
  | .map _ m =>
    rw [Item.tokens, List.length_cons, List.length_cons, List.length_append,
      List.length_singleton] at hfuel
    obtain ⟨fuel, rfl⟩ : ∃ k, fuel = k + 2 := ⟨fuel - 2, by omega⟩
    refine ⟨_, _, rfl, ⟨nofun, rfl⟩, ?_⟩
    rw [List.append_assoc]
    exact node_map false (m.build b rest fuel (by omega))

/-- The items of a list are built from their tokens, up to the end of the list. -/
theorem Listing.build (l : Listing) (b : Build) (rest : List Token) (fuel : Nat)
    (hfuel : 2 * l.tokens.length ≤ fuel + 1) :
    blockItems fuel (b.before (l.tokens ++ .blockEnd :: rest)) =
      some (l.nodes, b.before rest) := by
  match l with
  | .last i =>
    have hlength := i.two_le_length
    rw [Listing.tokens] at hfuel ⊢
    obtain ⟨fuel, rfl⟩ : ∃ k, fuel = k + 2 := ⟨fuel - 2, by omega⟩
    obtain ⟨t, ts, hts, ht, hnode⟩ := i.build b (.blockEnd :: rest) (fuel + 1) (by omega)
    rw [hts]
    exact blockItems_item ht hnode (blockItems_end fuel)
  | .item i _ more =>
    have hlength := i.two_le_length
    rw [Listing.tokens, List.length_append] at hfuel
    obtain ⟨fuel, rfl⟩ : ∃ k, fuel = k + 1 := ⟨fuel - 1, by omega⟩
    obtain ⟨t, ts, hts, ht, hnode⟩ := i.build b (more.tokens ++ .blockEnd :: rest) fuel
      (by omega)
    rw [Listing.tokens, List.append_assoc, hts]
    exact blockItems_item ht hnode (more.build b rest fuel (by omega))

/-- The items of a list in the column of its key are built from their tokens, up to what is no
item. -/
theorem Listing.build_indentless (l : Listing) (b : Build) {t : Token} (ht : t ≠ .blockEntry)
    (rest : List Token) (fuel : Nat) (hfuel : 2 * l.tokens.length ≤ fuel + 1) :
    indentlessItems fuel (b.before (l.tokens ++ t :: rest)) =
      some (l.nodes, b.before (t :: rest)) := by
  match l with
  | .last i =>
    have hlength := i.two_le_length
    rw [Listing.tokens] at hfuel ⊢
    obtain ⟨fuel, rfl⟩ : ∃ k, fuel = k + 2 := ⟨fuel - 2, by omega⟩
    obtain ⟨u, us, hus, hu, hnode⟩ := i.build b (t :: rest) (fuel + 1) (by omega)
    rw [hus]
    exact indentlessItems_item hu hnode (indentlessItems_end ht fuel)
  | .item i _ more =>
    have hlength := i.two_le_length
    rw [Listing.tokens, List.length_append] at hfuel
    obtain ⟨fuel, rfl⟩ : ∃ k, fuel = k + 1 := ⟨fuel - 1, by omega⟩
    obtain ⟨u, us, hus, hu, hnode⟩ := i.build b (more.tokens ++ t :: rest) fuel (by omega)
    rw [Listing.tokens, List.append_assoc, hus]
    exact indentlessItems_item hu hnode (more.build_indentless b ht rest fuel (by omega))

end

/-- The root is built from the tokens of a document. -/
theorem root_document (m : Mapping) (b : Build) {fuel : Nat}
    (hfuel : 2 * m.tokens.length + 2 ≤ fuel) : ∃ b' : Build, b'.anchored = b.anchored ∧
      Build.root fuel (b.before (.blockMapStart :: (m.tokens ++ [.blockEnd, .streamEnd]))) =
        some (m.node, b') := by
  obtain ⟨fuel, rfl⟩ : ∃ k, fuel = k + 2 := ⟨fuel - 2, by omega⟩
  obtain ⟨b', hb'⟩ : ∃ b' : Build, b' = { b with
    handles := [] ++ [("!", "!"), ("!!", "tag:yaml.org,2002:")] } := ⟨_, rfl⟩
  have hdirectives (ts : List Token) : directives false [] (fuel + 2)
      (b.before (.blockMapStart :: ts)) = some ((), b'.before (.blockMapStart :: ts)) := by
    rw [directives, build_bind peek_before, hb']
    rfl
  have hnode := node_map false (m.build b' [.streamEnd] fuel (by omega))
  have hends : dropEnds (fuel + 2) (b'.before [.streamEnd]) =
      some ((), b'.before [.streamEnd]) := by
    rw [dropEnds, build_bind (take?_ne (by decide)), if_neg Bool.false_ne_true]
    rfl
  refine ⟨b'.before [.streamEnd], by rw [hb']; rfl, ?_⟩
  rw [Build.root, build_bind peek_before]
  refine (build_bind (hdirectives _)).trans ((build_bind hnode).trans ((build_bind hends).trans ?_))
  rfl

/-- **A document in block layout** is read as the mapping that it describes. -/
theorem read?_document {text : String} {m : Mapping} {column : Nat}
    (h : text.toList = m.document column) : ∃ size, read? text = some ⟨m.node, [], size⟩ := by
  obtain ⟨ts, hts⟩ : ∃ ts, ts = Token.blockMapStart :: (m.tokens ++ [.blockEnd, .streamEnd]) :=
    ⟨_, rfl⟩
  have hfuel : 2 * m.tokens.length + 2 ≤ 3 * ts.length + 8 := by
    rw [hts, List.length_cons, List.length_append]
    omega
  obtain ⟨b, hb, hroot⟩ := root_document m { tokens := [] } hfuel
  rw [← hts] at hroot
  refine ⟨ts.length, ?_⟩
  rw [read?, tokenize?_document h, ← hts]
  refine (congrArg (Option.bind · fun p =>
    some (⟨p.1, p.2.anchored, ts.length⟩ : Tree)) hroot).trans ?_
  rw [Option.bind_some, hb]

end ResourceCli.Yaml
