import ResourceCli.Proofs.Yaml.Phrases

/-!
# Literal texts

How the reader of YAML takes a literal text: the lines below its bar as far as they are indented as
the first one is.  What stands before a line is its indentation as far as that goes, and empty lines
count; where a line stands further out, the text has ended before it.

* `blockBreaks_newline`: the space before a line.
* `block_literal`: a literal text.
-/

namespace ResourceCli.Yaml

section Literals

variable {rest after bs : List Char} {i l n : Nat}

theorem length_takeWhile_spaces : ∀ {k room : Nat}, k ≤ room →
    (k < room → rest.head? ≠ some ' ') →
    (((spaces k ++ rest).take room).takeWhile (· == ' ')).length = k
  | 0, 0, _, _ => rfl
  | 0, room + 1, _, hrest => by
    cases rest with
    | nil => rfl
    | cons c rest =>
      have hc : ¬ (c == ' ') = true := by
        rw [beq_iff_eq]
        exact fun h => hrest (Nat.succ_pos room) (congrArg some h)
      show (((c :: rest).take (room + 1)).takeWhile (· == ' ')).length = 0
      rw [List.take_succ_cons, List.takeWhile_cons_of_neg (p := (· == ' ')) hc]
      rfl
  | k + 1, room + 1, hk, hrest => by
    show ((' ' :: (spaces k ++ rest).take room).takeWhile (· == ' ')).length = k + 1
    rw [List.takeWhile_cons_of_pos rfl, List.length_cons,
      length_takeWhile_spaces (Nat.le_of_succ_le_succ hk) fun h => hrest (Nat.succ_lt_succ h)]

/-- What stands at the start of a line of a block: spaces, no more than belong to it. -/
theorem blockBreaks_spaces {indent : Option Nat} {k : Nat} (hk : ∀ n ∈ indent, k ≤ n)
    (hrest : indent ≠ some k → rest.head? ≠ some ' ') (breaks : List Char)
    (deepest i l fuel : Nat) :
    blockBreaks indent breaks deepest ⟨spaces k ++ rest, i, l, 0⟩ (fuel + 1) =
      let c : Cursor := ⟨rest, i + k, l, k⟩
      if indent.all (decide <| k < ·) && c.sees '\t' then none
      else if (c.peek 0).any isBreak then
        blockBreaks indent (breaks ++ c.takeBreak.1) (max deepest k) c.takeBreak.2 fuel
      else some (breaks, max deepest k, c) := by
  have hskip {room : Nat} (hroom : k ≤ room) (h : k < room → rest.head? ≠ some ' ') :
      (⟨spaces k ++ rest, i, l, 0⟩ : Cursor).skipN
        (((spaces k ++ rest).take room).takeWhile (· == ' ')).length = ⟨rest, i + k, l, k⟩ := by
    rw [length_takeWhile_spaces hroom h]
    have hall := Cursor.skipN_append (spaces k) rest i l 0
    rw [length_spaces, Nat.zero_add] at hall
    exact hall
  cases indent with
  | none =>
    rw [blockBreaks]
    dsimp only
    rw [hskip (by rw [List.length_append, length_spaces]; omega)
      fun _ => hrest (Option.some_ne_none k).symm]
    rfl
  | some n =>
    rw [blockBreaks]
    dsimp only
    rw [@hskip (n - 0) (hk n rfl) fun h => hrest fun heq => by
      obtain rfl := Option.some.inj heq
      omega]
    rfl

/-- **The space before a line of a block**: empty lines count, the indentation does not. -/
theorem blockBreaks_newline {indent : Option Nat} {k : Nat} (hk : ∀ n ∈ indent, k ≤ n)
    (hrest : ∀ c ∈ rest.head?, isBreak c = false ∧ (indent ≠ some k → isBlank c = false)) :
    ∀ (empty : Nat) (breaks : List Char) (deepest i l fuel : Nat), empty < fuel →
      blockBreaks indent breaks deepest ⟨List.replicate empty '\n' ++ (spaces k ++ rest), i, l, 0⟩
        fuel = some (breaks ++ List.replicate empty '\n', max deepest k,
          ⟨rest, i + empty + k, l + empty, k⟩)
  | 0, breaks, deepest, i, l, fuel + 1, _ => by
    have hspace : indent ≠ some k → rest.head? ≠ some ' ' := fun h heq =>
      Bool.false_ne_true (((hrest ' ' heq).2 h).symm.trans rfl)
    have htab : (indent.all (decide <| k < ·) &&
        (⟨rest, i + k, l, k⟩ : Cursor).sees '\t') = false := by
      cases rest with
      | nil => exact Bool.and_false _
      | cons c rest =>
        by_cases hindent : indent = some k
        · rw [hindent]
          show (decide (k < k) && _) = false
          rw [decide_eq_false (Nat.lt_irrefl k), Bool.false_and]
        · have hc := (hrest c rfl).2 hindent
          have hne : (⟨c :: rest, i + k, l, k⟩ : Cursor).sees '\t' = false :=
            beq_eq_false_iff_ne.2 fun h => by
              obtain rfl := Option.some.inj h
              exact Bool.false_ne_true (hc.symm.trans rfl)
          rw [hne, Bool.and_false]
    have hbreak : ((⟨rest, i + k, l, k⟩ : Cursor).peek 0).any isBreak = false := by
      cases rest with
      | nil => rfl
      | cons c rest => exact (hrest c rfl).1
    rw [List.replicate_zero, List.nil_append, blockBreaks_spaces hk hspace]
    dsimp only
    rw [htab, hbreak, List.append_nil]
    rfl
  | empty + 1, breaks, deepest, i, l, fuel + 1, hfuel => by
    have hspace : ('\n' :: (List.replicate empty '\n' ++ (spaces k ++ rest))).head? ≠ some ' ' :=
      fun h => absurd (Option.some.inj h) (by decide)
    have hnone : ∀ n ∈ indent, 0 ≤ n := fun _ _ => Nat.zero_le _
    have hline := blockBreaks_spaces hnone (fun _ => hspace) breaks deepest i l fuel
    have hmore := blockBreaks_newline hk hrest empty (breaks ++ ['\n']) (max deepest 0) (i + 1)
      (l + 1) fuel (Nat.lt_of_succ_lt_succ hfuel)
    rw [List.replicate_succ, List.cons_append]
    refine hline.trans ?_
    have htab : (indent.all (decide <| 0 < ·) && (⟨'\n' :: (List.replicate empty '\n' ++
        (spaces k ++ rest)), i + 0, l, 0⟩ : Cursor).sees '\t') = false := Bool.and_false _
    dsimp only
    rw [htab]
    refine hmore.trans ?_
    rw [List.append_assoc, List.singleton_append, Nat.max_zero, Nat.add_assoc i, Nat.add_assoc l,
      Nat.add_comm 1]

theorem takeBreak_newline (empty k : Nat) :
    (⟨newline empty k ++ rest, i, l, n⟩ : Cursor).takeBreak =
      (['\n'], ⟨List.replicate empty '\n' ++ (spaces k ++ rest), i + 1, l + 1, 0⟩) := by
  rw [newline, List.cons_append, List.append_assoc]
  rfl

/-- A line of a literal is taken with the space before the next line. -/
theorem blockLines_line (line : Line) {indent k : Nat} (hk : k ≤ indent)
    (hrest : ∀ c ∈ rest.head?, isBreak c = false ∧ (k ≠ indent → isBlank c = false))
    (text lastBreak moreBreaks : List Char) (afterBlank : Bool) (empty i l fuel : Nat) :
    ∃ blank, blockLines true indent text lastBreak moreBreaks afterBlank
        ⟨line.text ++ (newline empty k ++ rest), i, l, indent⟩ (fuel + 1) =
      blockLines true indent (line.text.reverse ++ ((lastBreak ++ moreBreaks).reverse ++ text))
        ['\n'] (List.replicate empty '\n') blank
        ⟨rest, i + line.text.length + 1 + empty + k, l + 1 + empty, k⟩ fuel := by
  obtain ⟨c, cs, hline⟩ := List.exists_cons_of_ne_nil line.ne_nil
  have hpeek : (⟨line.text ++ (newline empty k ++ rest), i, l, indent⟩ : Cursor).peek 0 =
      some c := by
    rw [hline]
    rfl
  have htake : (⟨line.text ++ (newline empty k ++ rest), i, l, indent⟩ : Cursor).takeWhile
      (!isBreak ·) = (line.text, ⟨newline empty k ++ rest, i + line.text.length, l,
        indent + line.text.length⟩) := by
    refine Cursor.takeWhile_append (fun c hc => ?_) fun c hc => ?_
    · rw [isBreak_of_inLine (line.inLine c hc)]
      rfl
    · obtain rfl := Option.some.inj hc
      rfl
  have hroom : ∀ n ∈ some indent, k ≤ n := fun n hn => Option.some.inj hn ▸ hk
  have hahead : ∀ c ∈ rest.head?, isBreak c = false ∧ (some indent ≠ some k → isBlank c = false) :=
    fun c hc => ⟨(hrest c hc).1, fun hne => (hrest c hc).2 fun h => hne (congrArg some h.symm)⟩
  have hspace := blockBreaks_newline hroom hahead empty [] 0 (i + line.text.length + 1) (l + 1)
    ((List.replicate empty '\n' ++ (spaces k ++ rest)).length + 1) (by
      rw [List.length_append, List.length_replicate]
      omega)
  refine ⟨isBlank c, ?_⟩
  rw [blockLines, hpeek]
  dsimp only
  rw [htake, bne_self_eq_false, if_neg Bool.false_ne_true]
  dsimp only
  rw [takeBreak_newline]
  dsimp only
  rw [hspace]
  rfl

theorem Line.isBreak_head (line : Line) {c : Char} (h : c ∈ (line.text ++ rest).head?) :
    isBreak c = false := by
  obtain ⟨d, cs, hline⟩ := List.exists_cons_of_ne_nil line.ne_nil
  rw [hline] at h
  obtain rfl := Option.some.inj h
  exact isBreak_of_inLine (line.inLine d (hline ▸ List.mem_cons_self))

/-- The lines of a literal are read up to the next line that is further out. -/
theorem blockLines_lines {indent column : Nat} (hcolumn : column < indent) (hafter : Ahead after)
    (empty : Nat) : ∀ (more : List (Nat × Line)) (first : Line)
      (text lastBreak moreBreaks : List Char) (afterBlank : Bool) (i l fuel : Nat),
      more.length + 1 < fuel → ∃ (text' : List Char) (i' l' : Nat), l < l' ∧
        text'.reverse = text.reverse ++ (lastBreak ++ (moreBreaks ++ (first.text ++
          more.flatMap fun line => newline line.1 0 ++ line.2.text))) ∧
        blockLines true indent text lastBreak moreBreaks afterBlank
          ⟨first.text ++ (more.flatMap (fun line => newline line.1 indent ++ line.2.text) ++
            (newline empty column ++ after)), i, l, indent⟩ fuel =
          some (text', ['\n'], List.replicate empty '\n', ⟨after, i', l', column⟩)
  | [], first, text, lastBreak, moreBreaks, afterBlank, i, l, fuel + 2, _ => by
    obtain ⟨blank, hline⟩ := blockLines_line first (Nat.le_of_lt hcolumn)
      (fun c hc => ⟨(hafter c hc).2, fun _ => (hafter c hc).1⟩) text lastBreak moreBreaks afterBlank
      empty i l (fuel + 1)
    refine ⟨first.text.reverse ++ ((lastBreak ++ moreBreaks).reverse ++ text),
      i + first.text.length + 1 + empty + column, l + 1 + empty, by omega, ?_, hline.trans ?_⟩
    · simp only [List.reverse_append, List.reverse_reverse, List.flatMap_nil, List.append_nil,
        List.append_assoc]
    · cases after with
      | nil => rfl
      | cons c after =>
        rw [blockLines]
        show (if (column != indent) = true then _ else _) = _
        rw [bne_iff_ne.2 (Nat.ne_of_lt hcolumn), if_pos rfl]
  | (empty', line) :: more, first, text, lastBreak, moreBreaks, afterBlank, i, l, fuel + 1,
      hfuel => by
    have hahead : ∀ c ∈ (line.text ++ (more.flatMap (fun line => newline line.1 indent ++
        line.2.text) ++ (newline empty column ++ after))).head?,
        isBreak c = false ∧ (indent ≠ indent → isBlank c = false) := fun c hc =>
      ⟨line.isBreak_head hc, fun hne => absurd rfl hne⟩
    obtain ⟨blank, hline⟩ := blockLines_line first (Nat.le_refl indent) hahead text lastBreak
      moreBreaks afterBlank empty' i l fuel
    obtain ⟨text', i', l', hl, htext, hmore⟩ := blockLines_lines hcolumn hafter empty more line
      (first.text.reverse ++ ((lastBreak ++ moreBreaks).reverse ++ text)) ['\n']
      (List.replicate empty' '\n') blank (i + first.text.length + 1 + empty' + indent)
      (l + 1 + empty') fuel (Nat.lt_of_succ_lt_succ hfuel)
    refine ⟨text', i', l', by omega, htext.trans ?_, ?_⟩
    · simp only [newline, spaces, List.replicate_zero, List.reverse_append, List.reverse_reverse,
        List.flatMap_cons, List.append_assoc, List.append_nil, List.cons_append, List.nil_append]
    · rw [List.flatMap_cons, List.append_assoc, List.append_assoc]
      exact hline.trans hmore

theorem forall_of_isBlank_or_isBreak {P : Char → Prop} (hspace : P ' ') (htab : P '\t')
    (hnewline : P '\n') (hreturn : P '\r') (hnext : P '\u0085') (hline : P '\u2028')
    (hparagraph : P '\u2029') {c : Char} (h : (isBlank c || isBreak c) = true) : P c := by
  simp only [isBlank, isBreak, Bool.or_eq_true, beq_iff_eq] at h
  rcases h with (rfl | rfl) | (((rfl | rfl) | rfl) | rfl) | rfl
  · exact hspace
  · exact htab
  · exact hnewline
  · exact hreturn
  · exact hnext
  · exact hline
  · exact hparagraph

/-- The header of a literal says nothing where a blank or a line break stands. -/
theorem blockHeader_blanks {c : Char} (hrest : rest.head? = some c)
    (hc : (isBlank c || isBreak c) = true) :
    blockHeader ⟨rest, i, l, n⟩ = some (.clip, none, ⟨rest, i, l, n⟩) := by
  obtain ⟨rest, rfl⟩ := List.head?_eq_some_iff.1 hrest
  exact forall_of_isBlank_or_isBreak (P := fun c => blockHeader ⟨c :: rest, i, l, n⟩ =
    some (.clip, none, ⟨c :: rest, i, l, n⟩)) rfl rfl rfl rfl rfl rfl rfl hc

theorem Literal.length_more (literal : Literal) (indent : Nat) :
    literal.more.length < (literal.text indent).length := by
  have hmore : ∀ more : List (Nat × Line), more.length ≤
      (more.flatMap fun line => newline line.1 indent ++ line.2.text).length := by
    intro more
    induction more with
    | nil => exact Nat.le_refl 0
    | cons line more ih =>
      rw [List.flatMap_cons, List.length_append, List.length_cons, newline]
      simp only [List.length_append, List.length_cons]
      omega
  have hfirst := List.length_pos_iff.2 literal.first.ne_nil
  have hmore := hmore literal.more
  rw [Literal.text, List.length_append]
  omega

/-- **A literal text** is read up to the next line that is further out. -/
theorem block_literal (literal : Literal) (trail : Blanks) {parent : Int} {indent column : Nat}
    (hparent : parent < indent) (hcolumn : column < indent) (hafter : Ahead after)
    (empty i l n : Nat) : ∃ i' l', l < l' ∧
      block true parent ⟨'|' :: (trail.text ++ (newline 0 indent ++ (literal.text indent ++
        (newline empty column ++ after)))), i, l, n⟩ =
      some (literal.said, ⟨after, i', l', column⟩) := by
  obtain ⟨behind, hbehind⟩ : ∃ cs, cs = literal.text indent ++ (newline empty column ++ after) :=
    ⟨_, rfl⟩
  have hbreak : (newline 0 indent ++ behind).head? = some '\n' := rfl
  obtain ⟨c, hhead, hc⟩ := isBlankOrEnd_blanks trail.areBlanks hbreak
  have hstart : ∀ c ∈ behind.head?, isBreak c = false ∧
      ((none : Option Nat) ≠ some indent → isBlank c = false) := by
    rw [hbehind, Literal.text, List.append_assoc]
    intro c hc
    refine ⟨literal.first.isBreak_head hc, fun _ => literal.isStart c ?_⟩
    obtain ⟨d, cs, hline⟩ := List.exists_cons_of_ne_nil literal.first.ne_nil
    rw [hline] at hc ⊢
    exact hc
  have hroom : ∀ n ∈ (none : Option Nat), indent ≤ n := nofun
  have hspace (fuel : Nat) := blockBreaks_newline hroom hstart 0 [] 0
    (i + 1 + trail.text.length + 1) (l + 1) (fuel + 1) (Nat.succ_pos fuel)
  have hindent : max (max (max 0 indent) (parent + 1).toNat) 1 = indent := by omega
  have hfuel : literal.more.length + 1 < behind.length + 1 := by
    have := literal.length_more indent
    rw [hbehind, List.length_append]
    omega
  obtain ⟨text, i', l', hl, htext, hlines⟩ := blockLines_lines hcolumn hafter empty literal.more
    literal.first [] [] [] false (i + 1 + trail.text.length + 1 + 0 + indent) (l + 1 + 0) _ hfuel
  have hskip : (⟨'|' :: (trail.text ++ (newline 0 indent ++ behind)), i, l, n⟩ : Cursor).skip =
      ⟨trail.text ++ (newline 0 indent ++ behind), i + 1, l, n + 1⟩ := rfl
  have hcomment : (⟨newline 0 indent ++ behind, i + 1 + trail.text.length, l,
      n + 1 + trail.text.length⟩ : Cursor).sees '#' = false := rfl
  have hends : isBreakOrEnd ((⟨newline 0 indent ++ behind, i + 1 + trail.text.length, l,
      n + 1 + trail.text.length⟩ : Cursor).peek 0) = true := rfl
  refine ⟨i', l', by omega, ?_⟩
  rw [← hbehind, block, hskip, blockHeader_blanks hhead hc]
  dsimp only
  rw [Cursor.skipWhile_append trail.areBlanks fun c hc => by
    obtain rfl := Option.some.inj hc
    rfl]
  rw [hcomment, if_neg Bool.false_ne_true, hends, Bool.not_true, if_neg Bool.false_ne_true,
    Cursor.skipBreak]
  rw [takeBreak_newline, Option.map_none]
  dsimp only
  rw [hspace]
  dsimp only
  rw [Option.getD_none, hindent]
  rw [← List.append_assoc, ← Literal.text, ← hbehind] at hlines
  rw [List.replicate_zero, List.append_nil, hlines]
  dsimp only
  rw [htext]
  rfl

end Literals

end ResourceCli.Yaml
