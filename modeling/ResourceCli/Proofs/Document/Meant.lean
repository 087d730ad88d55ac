import ResourceCli.Proofs.Document.Members
import ResourceCli.Proofs.Document.Rewriting
import ResourceCli.Proofs.Document.Turned
import ResourceCli.Proofs.Json.Meaning

/-!
# What the rewriting of flags touches
-/

namespace ResourceCli.Document

open Json Text

/-- **What the rewriting of flags touches.**  An object's text becomes a text of the same data with
truth values for the flags, exactly if every member can be rewritten.  In any text the members that
look like flags get truth values and nothing else changes, but for the lines of flags if the text
does not start like an object.  So a mapping in block layout stays one, and its data stays the same
with truth values for the flags, exactly if the mapping can be rewritten. -/
theorem normalizeFlags_touches (text : String) :
    (∀ members, IsText (.obj members) text.toList →
      ((∃ u, IsText u (normalizeFlags text).toList ∧
          u.data = (flagged isFlag (.obj members)).data) ↔ EachMember CanBeFlag (.obj members))) ∧
    (∃ cs, TurnedMembers text.toList cs ∧
      if looksJson text then (normalizeFlags text).toList = cs
      else List.Forall₂ TurnedLine (fields '\n' cs) (fields '\n' (normalizeFlags text).toList)) ∧
    ∀ (m : Yaml.Mapping) (column : Nat), text.toList = m.document column →
      looksJson text = false → NoMember text.toList →
      ∃ root size size', Yaml.read? text = some ⟨m.node, [], size⟩ ∧
        Yaml.read? (normalizeFlags text) = some ⟨root, [], size'⟩ ∧
        (root = m.node.turned ↔ m.CanBeRewritten) := by
  have hlines (hlooks : looksJson text = false) :
      (normalizeFlags text).toList = replaceYamlFlags (replaceJsonFlags 0 text.toList) := by
    rw [normalizeFlags, hlooks, if_neg Bool.false_ne_true, String.toList_ofList]
  refine ⟨fun members h => isText_normalizeFlags_iff h,
    ⟨_, turnedMembers_iff.2 rfl, ?_⟩, fun m column h hlooks hmembers => ?_⟩
  · cases hlooks : looksJson text with
    | true =>
      rw [if_pos rfl, normalizeFlags, hlooks, if_pos rfl, String.toList_ofList]
    | false =>
      rw [if_neg Bool.false_ne_true, hlines hlooks]
      exact turnedLines _
  · have hdocument : (normalizeFlags text).toList = m.rewritten.document column := by
      rw [hlines hlooks, replaceJsonFlags_of_noMember hmembers, h,
        m.replaceYamlFlags_document]
    obtain ⟨size, hread⟩ := Yaml.read?_document h
    obtain ⟨size', hread'⟩ := Yaml.read?_document hdocument
    exact ⟨_, size, size', hread, hread', m.node_rewritten_iff⟩

/-- A flag of an object is rewritten. -/
def requiredMember : List (Quoted × Source Quoted) :=
  [(Json.quoted "required", .num ⟨false, ['1'], [], none, by simp, by simp, by simp, by simp⟩)]

/-- The text of an object with a flag. -/
def requiredText : String := "\x7b\"required\": 1\x7d"

theorem isText_requiredMember : IsText (.obj requiredMember) requiredText.toList :=
  ⟨[], _, [], .nil, ⟨_, ⟨[], [':', ' '], ['1'], ['}'], .nil,
    ⟨[], [' '], .nil, by simp [Json.Spaces, Json.isSpace], rfl⟩, rfl, ⟨[], .nil, rfl⟩, rfl⟩, rfl⟩,
    .nil, rfl⟩

/-- A mapping with a flag in another one. -/
def requiredMapping : Yaml.Mapping :=
  .last (.word ⟨⟨'a', [], List.all_eq_true.1 rfl, by decide, by decide⟩, rfl, by decide, by decide⟩)
    (.map .none 0 1 (.last .required (.phrase .space
      (.words ⟨⟨'1', [], List.all_eq_true.1 rfl, by decide, by decide⟩, [], rfl⟩) .none)))

/-- The text of a mapping with a flag in another one. -/
def requiredLines : String := "a:\n  required: 1\n"

/-- Flags that are spelled plainly are rewritten, in an object and in a mapping. -/
theorem requiredMember_rewritten :
    (IsText (.obj requiredMember) requiredText.toList ∧ EachMember CanBeFlag (.obj requiredMember) ∧
      ∃ u, IsText u (normalizeFlags requiredText).toList ∧
        u.data = (flagged isFlag (.obj requiredMember)).data) ∧
    requiredLines.toList = requiredMapping.document 0 ∧ looksJson requiredLines = false ∧
      NoMember requiredLines.toList ∧ requiredMapping.CanBeRewritten ∧
      ∃ size, Yaml.read? (normalizeFlags requiredLines) =
        some ⟨requiredMapping.node.turned, [], size⟩ := by
  have hmember : EachMember CanBeFlag (.obj requiredMember) :=
    ⟨⟨fun _ _ => by decide, fun _ h => h.2.2 rfl⟩, trivial, trivial⟩
  have hlines : requiredLines.toList = requiredMapping.document 0 := by decide
  have hlooks : looksJson requiredLines = false := by decide
  have hnone : NoMember requiredLines.toList := noMember_of_notMem (by decide) (by decide)
  have hmapping : requiredMapping.CanBeRewritten := by
    intro b _ hb
    obtain rfl := Option.some.inj (hb.symm.trans (Yaml.bit?_of_digit? (b := true) rfl))
    exact ⟨rfl, rfl⟩
  obtain ⟨root, -, size, -, hread, hroot⟩ :=
    (normalizeFlags_touches requiredLines).2.2 requiredMapping 0 hlines hlooks hnone
  rw [hroot.2 hmapping] at hread
  exact ⟨⟨isText_requiredMember, hmember,
    ((normalizeFlags_touches requiredText).1 requiredMember isText_requiredMember).2 hmember⟩,
    hlines, hlooks, hnone, hmapping, size, hread⟩

/-- A text with a description that talks about a flag on a line of its own. -/
def describedText : String := "description: |\n  required: 1\n"

/-- **A line of a description is rewritten** if it looks like a flag. -/
theorem description_rewritten :
    (Yaml.read? describedText).map Yaml.Tree.root =
      some (.map none [(.scalar none "description" .plain,
        .scalar none "required: 1\n" .literal)]) ∧
    (Yaml.read? (normalizeFlags describedText)).map Yaml.Tree.root =
      some (.map none [(.scalar none "description" .plain,
        .scalar none "required: true\n" .literal)]) := by
  have hread (s told : String) (h : Yaml.tokenize? s = some [.blockMapStart, .key,
      .scalar "description" .plain, .value, .scalar told .literal, .blockEnd, .streamEnd]) :
      (Yaml.read? s).map Yaml.Tree.root =
        some (.map none [(.scalar none "description" .plain, .scalar none told .literal)]) := by
    rw [Yaml.read?, h]
    rfl
  exact ⟨hread _ _ (by decide +kernel), hread _ _ (by decide +kernel)⟩

end ResourceCli.Document
