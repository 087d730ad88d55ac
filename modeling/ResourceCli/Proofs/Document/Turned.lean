import ResourceCli.Proofs.Document.Layouts
import ResourceCli.Shape.Yaml

/-!
# Mappings whose flags are rewritten

A document in block layout is rewritten to one in block layout (`replaceYamlFlags_document`), and so
the rewriting keeps what it describes but for its flags as far as it finds the flags that are meant
and nothing else: `Mapping.node_rewritten_iff` says when that is.

What is meant goes by the nodes alone (`Node.turned`): the value of a key of a flag, however that is
spelled, becomes a truth value if it is an integer that is zero or one.
-/

namespace ResourceCli.Yaml

open Document Text

/-! ## The document -/

/-- **A document is rewritten** as its layout says. -/
theorem Mapping.replaceYamlFlags_document (m : Mapping) (column : Nat) :
    replaceYamlFlags (m.document column) = m.rewritten.document column := by
  have h := m.rewrites (.blanks (lineBlanks_spaces column)) column 0 0 []
  rw [List.append_assoc, List.append_assoc] at h
  exact h

/-! ## What the rewriting is meant to do -/

/-- The number that digits write, with the mark of a base or without. -/
def unsigned? : List Char → Option Nat
  | '0' :: 'x' :: ds => Shape.digitsValue? 16 ds
  | '0' :: 'o' :: ds => Shape.digitsValue? 8 ds
  | '0' :: 'b' :: ds => Shape.digitsValue? 2 ds
  | ds => Shape.digitsValue? 10 ds

/-- The integer that a plain text is. -/
def integer? (cs : List Char) : Option Int :=
  if Shape.looksInteger cs then
    (unsigned? (Shape.dropSign cs)).map fun n => if cs.head? = some '-' then -n else n
  else none

/-- Whether a node is the key of a flag. -/
def Node.isFlagKey : Node → Bool
  | .scalar none text _ => flagKeys.contains text
  | _ => false

/-- The truth value of an integer that is zero or one. -/
def Node.bit? : Node → Option Bool
  | .scalar none text .plain =>
    match integer? text.toList with
    | some 0 => some false
    | some 1 => some true
    | _ => none
  | _ => none

/-- The node of a truth value. -/
def Node.truth (b : Bool) : Node := .scalar none (String.ofList (Json.boolText b)) .plain

mutual

/-- A node with truth values for its flags. -/
def Node.turned : Node → Node
  | .list tag items => .list tag (turnedItems items)
  | .map tag entries => .map tag (turnedEntries entries)
  | n => n

/-- The items of a list with truth values for their flags. -/
def Node.turnedItems : List Node → List Node
  | [] => []
  | n :: ns => n.turned :: turnedItems ns

/-- The entries of a mapping with truth values for its flags. -/
def Node.turnedEntries : List (Node × Node) → List (Node × Node)
  | [] => []
  | (k, v) :: entries =>
    (k, match if k.isFlagKey then v.bit? else none with
      | some b => .truth b
      | none => v.turned) :: turnedEntries entries

end

/-- No text is the line of a flag. -/
def NoFlag (texts : List (List Char)) : Prop := ∀ cs ∈ texts, ∀ f : FlagLine, cs ≠ f.text

/-- Whether the value of a key can be rewritten as it is meant: if the key is that of a flag and the
value a zero or a one, they are written without quotes and with the digit alone. -/
def SpelledPlainly (k : Key) (p : Phrase) : Prop :=
  ∀ b, k.node.isFlagKey = true → p.node.bit? = some b →
    k.style = .plain ∧ p.text = [FlagLine.digit b]

mutual

/-- Whether the value of a key can be rewritten as it is meant: its flags are spelled plainly, and
no text that stands alone on a line is the line of a flag. -/
def Value.CanBeRewritten (k : Key) : Value → Prop
  | .phrase _ p _ => SpelledPlainly k p
  | .literal _ _ _ l => NoFlag (l.first.text :: l.more.map fun line => line.2.text)
  | .map _ _ _ m => m.CanBeRewritten
  | .list _ _ _ l => l.CanBeRewritten

/-- Whether a mapping can be rewritten as it is meant. -/
def Mapping.CanBeRewritten : Mapping → Prop
  | .last k v => v.CanBeRewritten k
  | .entry k v _ more => v.CanBeRewritten k ∧ more.CanBeRewritten

/-- Whether an item can be rewritten as it is meant. -/
def Item.CanBeRewritten : Item → Prop
  | .phrase _ p _ => NoFlag [p.text]
  | .map _ m => m.CanBeRewritten

/-- Whether a list can be rewritten as it is meant. -/
def Listing.CanBeRewritten : Listing → Prop
  | .last i => i.CanBeRewritten
  | .item i _ more => i.CanBeRewritten ∧ more.CanBeRewritten

end

section Nodes

theorem noFlag_append {texts texts' : List (List Char)} :
    NoFlag (texts ++ texts') ↔ NoFlag texts ∧ NoFlag texts' := List.forall_mem_append

theorem noFlag_iff {cs : List Char} : NoFlag [cs] ↔ yamlFlag? cs = none := by
  rw [NoFlag, List.forall_mem_singleton, Option.eq_none_iff_forall_ne_some]
  constructor
  · intro h line' hline
    obtain ⟨f, hf, -⟩ := yamlFlag?_eq_some_iff.1 hline
    exact h f hf
  · rintro h f rfl
    exact h _ f.yamlFlag?_text

/-- The line of a flag does not stay as it is. -/
theorem rewritten_ne_text (f : FlagLine) : f.rewritten ≠ f.text := by
  intro h
  have hbehind := List.append_cancel_left h
  rw [FlagLine.worded, FlagLine.numbered] at hbehind
  have hvalue := (List.cons.inj (List.append_cancel_left hbehind)).2
  have hmem : 'e' ∈ f.between ++ FlagLine.digit f.value :: f.after := by
    rw [← hvalue]
    cases f.value <;> decide
  rcases List.mem_append.1 hmem with hmem | hmem
  · exact absurd (f.lineBlanks_between _ hmem) (by decide)
  rcases List.mem_cons.1 hmem with heq | hmem
  · exact ne_digit (by decide) (by decide) f.value heq.symm
  · exact absurd (f.lineBlanks_after _ hmem) (by decide)

/-- Lines that are followed by others are the same if the lines and what follows them are. -/
theorem append_newline_inj {cs cs' rest rest' : List Char} (h : '\n' ∉ cs) (h' : '\n' ∉ cs') :
    cs ++ '\n' :: rest = cs' ++ '\n' :: rest' ↔ cs = cs' ∧ rest = rest' := by
  constructor
  · intro heq
    have hcut := congrArg (cutFirst '\n') heq
    rw [cutFirst_append h, cutFirst_append h'] at hcut
    exact Prod.mk.inj (Option.some.inj hcut)
  · rintro ⟨rfl, rfl⟩
    rfl

theorem Line.text_rewritten_iff (line : Line) :
    line.rewritten.text = line.text ↔ NoFlag [line.text] := by
  rw [noFlag_iff, line.text_rewritten]
  constructor
  · intro h
    cases hflag : yamlFlag? line.text with
    | none => rfl
    | some text =>
      obtain ⟨f, hf, rfl⟩ := yamlFlag?_eq_some_iff.1 hflag
      rw [hflag, Option.getD_some, hf] at h
      exact absurd h (rewritten_ne_text f)
  · intro h
    rw [h]
    rfl

theorem Literal.said_rewritten_iff (l : Literal) :
    l.rewritten.said = l.said ↔ NoFlag (l.first.text :: l.more.map fun line => line.2.text) := by
  have hlines : ∀ (more : List (Nat × Line)) (first : Line),
      (first.rewritten.text ++ (more.map fun line => (line.1, line.2.rewritten)).flatMap
          fun line => newline line.1 0 ++ line.2.text) =
        (first.text ++ more.flatMap fun line => newline line.1 0 ++ line.2.text) ↔
      NoFlag (first.text :: more.map fun line => line.2.text) := by
    intro more
    induction more with
    | nil =>
      intro first
      rw [List.map_nil, List.flatMap_nil, List.append_nil, List.append_nil]
      exact first.text_rewritten_iff
    | cons line more ih =>
      intro first
      have hnewline (cs : List Char) :
          newline line.1 0 ++ cs = '\n' :: (List.replicate line.1 '\n' ++ cs) :=
        congrArg (· ++ cs) (congrArg ('\n' :: ·) (List.append_nil _))
      rw [List.map_cons, List.flatMap_cons, List.flatMap_cons, List.append_assoc, List.append_assoc,
        hnewline, hnewline, append_newline_inj (notMem_inLine first.rewritten.inLine)
        (notMem_inLine first.inLine), List.append_cancel_left_eq, ih line.2,
        first.text_rewritten_iff, ← noFlag_append]
      rfl
  rw [Literal.said, Literal.said, String.ofList_inj, List.append_cancel_right_eq]
  exact hlines l.more l.first

theorem isFlag_iff {k : Key} :
    k.isFlag = true ↔ k.style = .plain ∧ k.node.isFlagKey = true := by
  rw [Key.isFlag, Bool.and_eq_true, beq_iff_eq]
  rfl

theorem node_truth (b : Bool) : (Value.truth b).node = .truth b := by
  show Node.scalar none (String.ofList (truth b).text) .plain = _
  rw [text_truth]
  rfl

theorem bit?_ofList (cs : List Char) : (Node.scalar none (String.ofList cs) .plain).bit? =
    match integer? cs with
    | some 0 => some false
    | some 1 => some true
    | _ => none := by
  rw [Node.bit?, String.toList_ofList]

/-- A truth value is no integer. -/
theorem bit?_truth (b : Bool) : (Node.truth b).bit? = none := by
  rw [Node.truth, bit?_ofList]
  cases b <;> rfl

/-- A digit is the integer that it looks like. -/
theorem bit?_of_digit? {p : Phrase} {b : Bool} (h : p.digit? = some b) : p.node.bit? = some b := by
  obtain ⟨w, rfl, hw⟩ := Phrase.digit?_eq_some_iff.1 h
  show (Node.scalar none (String.ofList w.text) .plain).bit? = _
  rw [hw, bit?_ofList]
  cases b <;> rfl

/-- A digit is spelled with its character alone. -/
theorem Phrase.digit?_iff_text {p : Phrase} {b : Bool} :
    p.digit? = some b ↔ p.text = [FlagLine.digit b] := by
  rw [Phrase.digit?_eq_some_iff]
  constructor
  · rintro ⟨w, rfl, hw⟩
    exact hw
  · intro h
    cases p with
    | words w => exact ⟨w, rfl, h⟩
    | quote q =>
      have := congrArg List.length h
      simp [Phrase.text, Quote.text] at this

/-- The value of a flag gets its truth value exactly if the flag is spelled plainly. -/
theorem phrase_rewritten_iff (k : Key) (gap : Gap) (p : Phrase) (trail : Blanks) :
    ((Value.phrase gap p trail).rewritten k.isFlag).node =
      (match if k.node.isFlagKey then p.node.bit? else none with
        | some b => .truth b
        | none => p.node) ↔ SpelledPlainly k p := by
  rw [Value.rewritten]
  cases hkey : k.node.isFlagKey with
  | false =>
    have hflag : k.isFlag = false := Bool.eq_false_iff.2 fun h =>
      Bool.false_ne_true (hkey.symm.trans (isFlag_iff.1 h).2)
    rw [hflag]
    exact iff_of_true rfl fun b h => absurd (hkey.symm.trans h) Bool.false_ne_true
  | true =>
    rw [if_pos rfl]
    cases hbit : p.node.bit? with
    | none =>
      have hdigit : p.digit? = none := Option.eq_none_iff_forall_ne_some.2 fun b h =>
        Option.some_ne_none b ((bit?_of_digit? h).symm.trans hbit)
      rw [hdigit, ite_self]
      exact iff_of_true rfl fun b _ h => absurd (h.symm.trans hbit) (Option.some_ne_none b)
    | some b =>
      dsimp only
      constructor
      · intro h b' _ hb'
        obtain rfl := Option.some.inj (hbit.symm.trans hb')
        cases hdigit : (if k.isFlag then p.digit? else none) with
        | none =>
          -- A truth value would be no integer.
          rw [hdigit] at h
          have hnone := bit?_truth b
          rw [← h] at hnone
          exact absurd (hbit.symm.trans hnone) (Option.some_ne_none b)
        | some b' =>
          rw [Option.ite_none_right_eq_some] at hdigit
          obtain rfl := Option.some.inj (hbit.symm.trans (bit?_of_digit? hdigit.2))
          exact ⟨(isFlag_iff.1 hdigit.1).1, Phrase.digit?_iff_text.1 hdigit.2⟩
      · intro h
        obtain ⟨hstyle, htext⟩ := h b hkey hbit
        rw [if_pos (isFlag_iff.2 ⟨hstyle, hkey⟩), Phrase.digit?_iff_text.2 htext]
        exact node_truth b

/-- A text that stands alone on a line is no flag if it does not look like one. -/
theorem Phrase.noFlag_iff (p : Phrase) : NoFlag [p.text] ↔ p.flag? = none := by
  have hnil : LineBlanks [] := fun _ h => absurd h List.not_mem_nil
  have halone := yamlFlag?_alone (.blanks hnil) p .none
  rw [List.nil_append, show Blanks.none.text = [] from rfl, List.append_nil] at halone
  rw [Yaml.noFlag_iff, halone, Option.map_eq_none_iff]

mutual

/-- **The node of a value** gets truth values for its flags, and nothing else changes, exactly if
the value can be rewritten so. -/
theorem Value.node_rewritten_iff (v : Value) (k : Key) :
    (v.rewritten k.isFlag).node = (match if k.node.isFlagKey then v.node.bit? else none with
      | some b => .truth b
      | none => v.node.turned) ↔ v.CanBeRewritten k := by
  have hnone {n : Node} (h : n.bit? = none) :
      (if k.node.isFlagKey then n.bit? else none) = none := by
    rw [h, ite_self]
  match v with
  | .phrase gap p trail => exact phrase_rewritten_iff k gap p trail
  | .literal gap trail deeper l =>
    rw [hnone rfl]
    show Node.scalar none l.rewritten.said .literal = .scalar none l.said .literal ↔ _
    rw [Node.scalar.injEq, Value.CanBeRewritten, ← l.said_rewritten_iff]
    simp only [true_and, and_true]
  | .map trail empty deeper m =>
    rw [hnone rfl]
    show Node.map none m.rewritten.entries = .map none (Node.turnedEntries m.entries) ↔ _
    rw [Node.map.injEq, Value.CanBeRewritten, ← m.entries_rewritten_iff]
    simp only [true_and]
  | .list trail empty deeper l =>
    rw [hnone rfl]
    show Node.list none l.rewritten.nodes = .list none (Node.turnedItems l.nodes) ↔ _
    rw [Node.list.injEq, Value.CanBeRewritten, ← l.nodes_rewritten_iff]
    simp only [true_and]

/-- The entries of a mapping get truth values for its flags exactly if it can be rewritten so. -/
theorem Mapping.entries_rewritten_iff (m : Mapping) :
    m.rewritten.entries = Node.turnedEntries m.entries ↔ m.CanBeRewritten := by
  match m with
  | .last k v =>
    rw [Mapping.CanBeRewritten, ← v.node_rewritten_iff k]
    simp [Mapping.rewritten, Mapping.entries, Node.turnedEntries]
  | .entry k v empty more =>
    rw [Mapping.CanBeRewritten, ← v.node_rewritten_iff k, ← more.entries_rewritten_iff]
    simp [Mapping.rewritten, Mapping.entries, Node.turnedEntries]

/-- An item that looks like a flag becomes a mapping. -/
theorem Item.node_rewritten_iff (i : Item) :
    i.rewritten.node = i.node.turned ↔ i.CanBeRewritten := by
  match i with
  | .phrase gap p trail =>
    rw [Item.CanBeRewritten, p.noFlag_iff, Item.rewritten]
    cases hflag : p.flag? with
    | none => exact iff_of_true rfl rfl
    | some f => exact iff_of_false nofun nofun
  | .map gap m =>
    show Node.map none m.rewritten.entries = .map none (Node.turnedEntries m.entries) ↔ _
    rw [Node.map.injEq, Item.CanBeRewritten, ← m.entries_rewritten_iff]
    simp only [true_and]

theorem Listing.nodes_rewritten_iff (l : Listing) :
    l.rewritten.nodes = Node.turnedItems l.nodes ↔ l.CanBeRewritten := by
  match l with
  | .last i =>
    rw [Listing.CanBeRewritten, ← i.node_rewritten_iff]
    simp [Listing.rewritten, Listing.nodes, Node.turnedItems]
  | .item i empty more =>
    rw [Listing.CanBeRewritten, ← i.node_rewritten_iff, ← more.nodes_rewritten_iff]
    simp [Listing.rewritten, Listing.nodes, Node.turnedItems]

end

/-- **The node of a mapping** gets truth values for its flags, and nothing else changes, exactly if
the mapping can be rewritten so. -/
theorem Mapping.node_rewritten_iff (m : Mapping) :
    m.rewritten.node = m.node.turned ↔ m.CanBeRewritten := by
  rw [← m.entries_rewritten_iff, Mapping.node, Mapping.node, Node.turned, Node.map.injEq]
  simp only [true_and]

end Nodes

end ResourceCli.Yaml
