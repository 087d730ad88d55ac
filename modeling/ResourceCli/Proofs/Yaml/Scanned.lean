import ResourceCli.Proofs.Yaml.Tokens
import Mathlib.Logic.Relation

/-!
# The tokens of a mapping

The tokens that a mapping in block layout is read as.  From where a piece starts, the scanner takes
some steps and stands before what follows the piece; what the piece has opened is ended there, as
far as what follows stands further out.  That is shown for a key, a text on one line and a literal
text first, and then for mappings and lists by recursion over the layout.

* `Mapping.reads`: the steps over a mapping.
* `tokenize?_document`: the tokens of a document.
-/

namespace ResourceCli.Yaml

open Scan

namespace Level

/-- More tokens. -/
def append (l : Level) (ts : List Token) : Level := { l with tokens := l.tokens ++ ts }

theorem push_eq_append (l : Level) (t : Token) : l.push t = l.append [t] := by
  rw [push, append]
  congr 1

theorem append_append (l : Level) (ts us : List Token) :
    (l.append ts).append us = l.append (ts ++ us) := by
  rw [append, append, append]
  congr 1
  exact Array.toList_inj.1 (by simp)

theorem closed_of_le {l : Level} {column : Int} (h : l.indent ≤ column) : l.closed column = l := by
  obtain ⟨ts, indent, indents⟩ := l
  rw [closed]
  cases indents with
  | nil => rfl
  | cons outer indents =>
    rw [closeTo, if_neg (by exact Int.not_lt.2 h)]

theorem rolled_of_le {l : Level} {column : Nat} (h : (column : Int) ≤ l.indent) (t : Token) :
    l.rolled column t = l := if_pos h

/-- A collection that is opened and left again is there with its end. -/
theorem closed_rolled {l : Level} {column : Nat} {outer : Int} (hopen : l.indent < column)
    (hclose : outer < column) (t : Token) (ts : List Token) :
    ((l.rolled column t).append ts).closed outer =
      (l.append (t :: (ts ++ [.blockEnd]))).closed outer := by
  have htokens : ((l.tokens.push t) ++ ts).push .blockEnd =
      l.tokens ++ (t :: (ts ++ [.blockEnd])) :=
    Array.toList_inj.1 (by simp)
  rw [rolled, if_neg (Int.not_le.2 hopen), closed]
  have hclosed : closeTo outer ((l.tokens.push t) ++ ts) column (l.indent :: l.indents) =
      closeTo outer (l.tokens ++ (t :: (ts ++ [.blockEnd]))) l.indent l.indents := by
    rw [closeTo, if_pos hclose, htokens]
  exact congrArg (fun left => (⟨left.1, left.2.1, left.2.2⟩ : Level)) hclosed

end Level

/-- One token is read, and what lies before the next one is passed over. -/
inductive Step (s s' : Scan) : Prop
  /-- The text gets shorter. -/
  | mk {behind : Scan} (htoken : token s = some (false, behind))
    (hsettle : settle behind = some ((), s'))
    (hshorter : s'.cursor.rest.length < s.cursor.rest.length)

/-- Some tokens are read. -/
abbrev Reads : Scan → Scan → Prop := Relation.ReflTransGen Step

theorem all_of_reads {s s' s'' : Scan} (h : Reads s s') (hend : token s' = some (true, s'')) :
    ∀ {start : Scan} {fuel : Nat}, settle start = some ((), s) → s.cursor.rest.length < fuel →
      Scan.all fuel start = some ((), s'') := by
  induction h using Relation.ReflTransGen.head_induction_on with
  | refl =>
    intro start fuel hsettle hfuel
    obtain ⟨fuel, rfl⟩ : ∃ k, fuel = k + 1 := ⟨fuel - 1, by omega⟩
    have hnext : next start = some (true, s'') := by
      rw [next, bind_of_some hsettle, hend]
    rw [Scan.all, bind_of_some hnext]
    rfl
  | head hstep _ ih =>
    intro start fuel hsettle hfuel
    obtain ⟨fuel, rfl⟩ : ∃ k, fuel = k + 1 := ⟨fuel - 1, by omega⟩
    cases hstep with
    | @mk behind htoken hsettle' hshorter =>
      have hnext : next start = some (false, behind) := by
        rw [next, bind_of_some hsettle, htoken]
      rw [Scan.all, bind_of_some hnext]
      exact ih hsettle' (by omega)

theorem skipToToken_begins (l : Level) {c : Cursor} (allowed : Bool) (key : Option PendingKey)
    (h : Begins c.rest) (fuel : Nat) :
    skipToToken (l.scan c allowed key) (fuel + 1) = l.scan c allowed key :=
  skipToToken_blanks l key (skipped_nil allowed) h c.index c.line c.column fuel

theorem settle_fresh {s : Scan} {l : Level} {c : Cursor} {allowed : Bool} {k : PendingKey}
    (hskip : skipToToken s (s.cursor.rest.length + 1) = l.scan c allowed (some k))
    (hline : k.line = c.line) (hindex : c.index ≤ k.index + 1024) :
    settle s = some ((), (l.closed c.column).scan c allowed (some k)) := by
  have hmodify : (modify fun s : Scan => skipToToken s (s.cursor.rest.length + 1) : ScanM Unit) s =
      some ((), l.scan c allowed (some k)) := by
    rw [← hskip]
    rfl
  rw [settle, bind_of_some hmodify, bind_of_some (dropStaleKeys_fresh hline hindex), get_bind]
  rfl

theorem Key.short (k : Key) : k.text.length ≤ 1024 := by
  cases k with
  | word k => exact k.short
  | quote q h => exact h

section Pieces

variable {l : Level} {rest after : List Char} {i n m : Nat} {allowed : Bool}

theorem Chunk.begins (c : Chunk) (hstart : isMark c.head = false) (rest : List Char) :
    Begins (c.text ++ rest) := by
  intro x hx
  obtain rfl := Option.some.inj hx
  have hhead := c.inWord c.head List.mem_cons_self
  exact ⟨isBlank_of_inWord hhead, isBreak_of_inWord hhead, c.noComment, ne_of_isMark hstart rfl⟩

theorem begins_quoteMark (single : Bool) (rest : List Char) :
    Begins (quoteMark single :: rest) := by
  intro x hx
  obtain rfl := Option.some.inj hx
  cases single <;> exact ⟨rfl, rfl, by decide, by decide⟩

theorem Begins.ahead (h : Begins rest) : Ahead rest := fun c hc => ⟨(h c hc).1, (h c hc).2.1⟩

theorem Key.begins (k : Key) (rest : List Char) : Begins (k.text ++ rest) := by
  cases k with
  | word k => exact k.chunk.begins k.isStart rest
  | quote q => exact begins_quoteMark q.single _

theorem Phrase.begins (p : Phrase) (rest : List Char) : Begins (p.text ++ rest) := by
  cases p with
  | words w =>
    rw [Phrase.text, Words.text, List.append_assoc]
    exact w.first.begins w.isStart _
  | quote q => exact begins_quoteMark q.single _

/-- **A key** is read up to its colon. -/
theorem token_key (k : Key) (hrest : isBlankOrEnd rest.head? = true) :
    token (l.scan ⟨k.text ++ ':' :: rest, i, n, m⟩ true none) =
      some (false, (l.push (.scalar k.said k.style)).scan
        ⟨':' :: rest, i + k.text.length, n, m + k.text.length⟩ false
        (some (l.keyAt ⟨k.text ++ ':' :: rest, i, n, m⟩))) := by
  cases k with
  | word k =>
    have hhead := k.chunk.begins k.isStart (':' :: rest) k.chunk.head rfl
    exact token_scan (plainScalar_scan l true (plain_keyWord k hrest _ i n m _))
      (reader?_plain rfl k.isStart hhead.1 hhead.2.1) rfl
  | quote q =>
    have hcolon : (':' :: rest).head? ≠ some '\'' := fun h => absurd (Option.some.inj h) (by decide)
    exact token_scan (quoted_scan l true (quotedScalar_text q hcolon i n m))
      (reader?_quote q.single rfl) rfl

/-- The colon behind a key is read. -/
theorem token_colon (k : Key) {key : PendingKey} (hrest : isBlankOrEnd rest.head? = true)
    (hplace : key.place = l.tokens.size) :
    token ((l.push (.scalar k.said k.style)).scan ⟨':' :: rest, i, n, m⟩ false (some key)) =
      some (false, ((l.rolled key.column .blockMapStart).append
        [.key, .scalar k.said k.style, .value]).scan ⟨rest, i + 1, n, m + 1⟩ false none) := by
  refine (token_scan (valueIndicator_scan l _ (.scalar k.said k.style) key hplace)
    (reader?_colon hrest i n m) rfl).trans ?_
  simp only [Level.push_eq_append, Level.append_append]
  rfl

/-- **A key and its colon** are read up to the value. -/
theorem step_key (k : Key) (hrest : isBlankOrEnd rest.head? = true) (hindent : l.indent ≤ m) :
    ∃ s, Step (l.scan ⟨k.text ++ ':' :: rest, i, n, m⟩ true none) s ∧
      token s = some (false, ((l.rolled m .blockMapStart).append
        [.key, .scalar k.said k.style, .value]).scan
          ⟨rest, i + k.text.length + 1, n, m + k.text.length + 1⟩ false none) ∧
      rest.length < s.cursor.rest.length := by
  have hbegins : Begins (⟨':' :: rest, i + k.text.length, n, m + k.text.length⟩ : Cursor).rest := by
    intro c hc
    obtain rfl := Option.some.inj hc
    exact ⟨rfl, rfl, by decide, by decide⟩
  have hclosed : (l.push (.scalar k.said k.style)).closed ↑(m + k.text.length) =
      l.push (.scalar k.said k.style) :=
    Level.closed_of_le (show l.indent ≤ _ by omega)
  have hindex : i + k.text.length ≤ i + 1024 := Nat.add_le_add_left k.short i
  have hsettle := settle_fresh (skipToToken_begins (l.push (.scalar k.said k.style)) false
    (some (l.keyAt ⟨k.text ++ ':' :: rest, i, n, m⟩)) hbegins _) rfl hindex
  rw [hclosed] at hsettle
  have hlength : 0 < k.text.length := by
    cases k with
    | word k => exact Nat.succ_pos _
    | quote q => exact Nat.succ_pos _
  refine ⟨_, ⟨token_key k hrest, hsettle, ?_⟩, token_colon k hrest rfl, Nat.lt_succ_self _⟩
  show (':' :: rest).length < (k.text ++ ':' :: rest).length
  rw [List.length_append]
  omega

/-- Blanks before a token are passed over. -/
theorem settle_gap {bs : List Char} (hbs : Skipped allowed bs) (hrest : Begins rest)
    (hindent : l.indent ≤ m) (i n : Nat) :
    settle (l.scan ⟨bs ++ rest, i, n, m⟩ allowed none) =
      some ((), l.scan ⟨rest, i + bs.length, n, m + bs.length⟩ allowed none) := by
  have hclosed : l.closed ↑(m + bs.length) = l := Level.closed_of_le (by omega)
  have hsettle := settle_scan (skipToToken_blanks l none hbs hrest i n m (bs ++ rest).length)
    forall_mem_none
  rw [hclosed] at hsettle
  exact hsettle

theorem step_gap {s : Scan} {bs : List Char} (hbs : Skipped allowed bs) (hrest : Begins rest)
    (hindent : l.indent ≤ m)
    (htoken : token s = some (false, l.scan ⟨bs ++ rest, i, n, m⟩ allowed none))
    (hlength : (bs ++ rest).length < s.cursor.rest.length) :
    Step s (l.scan ⟨rest, i + bs.length, n, m + bs.length⟩ allowed none) := by
  refine ⟨htoken, settle_gap hbs hrest hindent i n, ?_⟩
  rw [List.length_append] at hlength
  show rest.length < s.cursor.rest.length
  omega

/-- The end of a line before a token is passed over. -/
theorem step_newline {s : Scan} {empty column : Nat} (bs : Blanks) (hrest : Begins rest)
    (hindent : l.indent ≤ column)
    (htoken : token s = some (false,
      l.scan ⟨bs.text ++ (newline empty column ++ rest), i, n, m⟩ false none))
    (hlength : (bs.text ++ (newline empty column ++ rest)).length < s.cursor.rest.length) :
    ∃ i' n', Step s (l.scan ⟨rest, i', n', column⟩ true none) := by
  have hfuel : empty + 1 < (bs.text ++ (newline empty column ++ rest)).length + 1 := by
    simp only [newline, List.length_append, List.length_cons, List.length_replicate]
    omega
  have hsettle := settle_scan
    (skipToToken_newline l none bs.skipped hrest column empty i n m hfuel) forall_mem_none
  rw [Level.closed_of_le hindent] at hsettle
  refine ⟨_, _, htoken, hsettle, ?_⟩
  simp only [List.length_append] at hlength
  show rest.length < s.cursor.rest.length
  omega

/-- The state behind a text at the end of a line is that at the start of the next one. -/
theorem step_line {t : Token} {c c' : Cursor} {allowed' : Bool} {key : Option PendingKey}
    (htoken : token (l.scan c allowed none) = some (false, (l.push t).scan c' allowed' key))
    {i n : Nat} {column : Nat}
    (hskip : skipToToken ((l.push t).scan c' allowed' key) (c'.rest.length + 1) =
      (l.push t).scan ⟨after, i, n, column⟩ true key)
    (hkey : ∀ k ∈ key, k.required = false ∧ k.line < n) (hlength : after.length < c.rest.length) :
    Step (l.scan c allowed none)
      (((l.push t).closed column).scan ⟨after, i, n, column⟩ true none) :=
  ⟨htoken, settle_scan hskip hkey, hlength⟩

theorem length_newline (empty column : Nat) : 0 < (newline empty column).length := Nat.succ_pos _

theorem required_saved {c : Cursor} (hindent : l.indent < c.column) {n' : Nat}
    (hline : c.line < n') : ∀ k ∈ l.saved c allowed, k.required = false ∧ k.line < n' := by
  intro k hk
  cases allowed with
  | false => cases hk
  | true =>
    obtain rfl := Option.some.inj hk
    exact ⟨beq_eq_false_iff_ne.2 (Int.ne_of_lt hindent), hline⟩

/-- **A text on one line** is read up to the next line. -/
theorem step_phrase (p : Phrase) (trail : Blanks) (allowed : Bool) {column : Nat}
    (hcolumn : (column : Int) ≤ l.indent) (hindent : l.indent < m) (hafter : Begins after)
    (empty i n : Nat) : ∃ i' n',
      Step (l.scan ⟨p.text ++ (trail.text ++ (newline empty column ++ after)), i, n, m⟩ allowed
        none) (((l.append [.scalar p.said p.style]).closed column).scan ⟨after, i', n', column⟩
          true none) := by
  rw [← Level.push_eq_append]
  have hlength : after.length <
      (p.text ++ (trail.text ++ (newline empty column ++ after))).length := by
    have := length_newline empty column
    simp only [List.length_append]
    omega
  cases p with
  | words w =>
    have hcolumn' : column < (l.indent + 1).toNat := by omega
    have hindent' : (l.indent + 1).toNat ≤ m := by omega
    have hfuel : w.text.length ≤
        (w.text ++ (trail.text ++ (newline empty column ++ after))).length + 1 := by
      rw [List.length_append]
      omega
    obtain ⟨i', n', hn, hplain⟩ :=
      plain_words w hafter.ahead trail.areBlanks hcolumn' hindent' empty i n hfuel
    have hhead := w.first.begins w.isStart [] w.first.head rfl
    have htoken := token_scan (plainScalar_scan l allowed hplain)
      (reader?_plain rfl w.isStart hhead.1 hhead.2.1) rfl
    exact ⟨i', n', step_line htoken (skipToToken_begins _ _ _ hafter _)
      (required_saved hindent hn) hlength⟩
  | quote q =>
    have hquote : (trail.text ++ (newline empty column ++ after)).head? ≠ some '\'' := by
      intro h
      have hline : (newline empty column ++ after).head? = some '\n' := rfl
      obtain ⟨c, hc, hblank⟩ := isBlankOrEnd_blanks trail.areBlanks hline
      obtain rfl := Option.some.inj (h.symm.trans hc)
      exact Bool.false_ne_true hblank
    have htoken := token_scan (quoted_scan l allowed (quotedScalar_text q hquote i n m))
      (reader?_quote q.single rfl) rfl
    have hfuel : empty + 1 < (trail.text ++ (newline empty column ++ after)).length + 1 := by
      simp only [newline, List.length_append, List.length_cons, List.length_replicate]
      omega
    have hskip := skipToToken_newline (l.push (.scalar (Phrase.quote q).said .quoted))
      (l.saved ⟨q.text ++ (trail.text ++ (newline empty column ++ after)), i, n, m⟩ allowed)
      trail.skipped hafter column empty (i + q.text.length) n (m + q.text.length) hfuel
    exact ⟨_, _, step_line htoken hskip (required_saved hindent (by
      show n < n + 1 + empty
      omega)) hlength⟩

/-- **A literal text** is read up to the next line that is further out. -/
theorem step_literal (literal : Literal) (trail : Blanks) (allowed : Bool) {indent column : Nat}
    (hindent : l.indent < indent) (hcolumn : column < indent)
    (hafter : Begins after) (empty i n m : Nat) : ∃ i' n',
      Step (l.scan ⟨'|' :: (trail.text ++ (newline 0 indent ++ (literal.text indent ++
        (newline empty column ++ after)))), i, n, m⟩ allowed none)
        (((l.append [.scalar literal.said .literal]).closed column).scan ⟨after, i', n', column⟩
          true none) := by
  rw [← Level.push_eq_append]
  obtain ⟨i', n', -, hblock⟩ := block_literal literal trail hindent hcolumn hafter.ahead empty i n m
  have htoken := token_scan (blockScalar_scan l allowed hblock) (reader?_bar _ i n m) rfl
  refine ⟨i', n', step_line htoken (skipToToken_begins _ _ _ hafter _) forall_mem_none ?_⟩
  simp only [List.length_append, List.length_cons]
  omega

end Pieces

/-! ## Mappings and lists -/

/-- The token of a key, and those around it. -/
def Key.tokens (k : Key) : List Token := [.key, .scalar k.said k.style, .value]

mutual

/-- The tokens of a value. -/
def Value.tokens : Value → List Token
  | .phrase _ p _ => [.scalar p.said p.style]
  | .literal _ _ _ l => [.scalar l.said .literal]
  | .map _ _ _ m => .blockMapStart :: (m.tokens ++ [.blockEnd])
  | .list _ _ 0 l => l.tokens
  | .list _ _ (_ + 1) l => .blockListStart :: (l.tokens ++ [.blockEnd])

/-- The tokens of the entries of a mapping. -/
def Mapping.tokens : Mapping → List Token
  | .last k v => k.tokens ++ v.tokens
  | .entry k v _ more => k.tokens ++ (v.tokens ++ more.tokens)

/-- The tokens of an item, with its dash. -/
def Item.tokens : Item → List Token
  | .phrase _ p _ => [.blockEntry, .scalar p.said p.style]
  | .map _ m => .blockEntry :: .blockMapStart :: (m.tokens ++ [.blockEnd])

/-- The tokens of the items of a list. -/
def Listing.tokens : Listing → List Token
  | .last i => i.tokens
  | .item i _ more => i.tokens ++ more.tokens

end

section Runs

variable {l : Level} {rest after : List Char} {empty column k : Nat}

theorem Mapping.begins (m : Mapping) (n : Nat) (rest : List Char) : Begins (m.text n ++ rest) := by
  cases m with
  | last key v =>
    rw [Mapping.text, List.append_assoc]
    exact key.begins _
  | entry key v empty more =>
    rw [Mapping.text, List.append_assoc]
    exact key.begins _

theorem Listing.begins (l : Listing) (n : Nat) (rest : List Char) : Begins (l.text n ++ rest) := by
  have hitem (i : Item) (rest : List Char) : Begins (i.text n ++ rest) := by
    intro c hc
    cases i <;>
    · obtain rfl := Option.some.inj hc
      exact ⟨rfl, rfl, by decide, by decide⟩
  cases l with
  | last i => exact hitem i rest
  | item i empty more =>
    rw [Listing.text, List.append_assoc]
    exact hitem i _

theorem isBlankOrEnd_append {bs : List Char} (hbs : ∀ c ∈ bs, isBlank c = true) :
    isBlankOrEnd (bs ++ (newline empty column ++ rest)).head? = true := by
  have hline : (newline empty column ++ rest).head? = some '\n' := rfl
  obtain ⟨c, hc, hblank⟩ := isBlankOrEnd_blanks hbs hline
  rw [hc, isBlankOrEnd, Bool.or_comm]
  exact hblank

theorem Gap.isBlankOrEnd (gap : Gap) (rest : List Char) :
    isBlankOrEnd (gap.text ++ rest).head? = true := by
  obtain ⟨b, bs, hgap⟩ := List.exists_cons_of_ne_nil gap.ne_nil
  have hb := gap.areBlanks b (hgap ▸ List.mem_cons_self)
  rw [hgap]
  show (isBreak b || isBlank b) = true
  rw [hb, Bool.or_true]

/-- A blank or the end of a line follows the colon of a key. -/
theorem Value.isBlankOrEnd (v : Value) (empty column : Nat) (rest : List Char) (n : Nat) :
    isBlankOrEnd (v.text n ++ (newline empty column ++ rest)).head? = true := by
  cases v with
  | phrase gap p trail =>
    rw [Value.text, List.append_assoc]
    exact gap.isBlankOrEnd _
  | literal gap trail deeper l =>
    rw [Value.text, List.append_assoc]
    exact gap.isBlankOrEnd _
  | map trail empty deeper m =>
    rw [Value.text, List.append_assoc, List.append_assoc]
    exact isBlankOrEnd_append trail.areBlanks
  | list trail empty deeper l =>
    rw [Value.text, List.append_assoc, List.append_assoc]
    exact isBlankOrEnd_append trail.areBlanks

theorem Level.indent_rolled {l : Level} {t : Token} (h : l.indent ≤ k) :
    (l.rolled k t).indent = k := by
  rw [Level.rolled]
  split
  · omega
  · rfl

theorem Level.closed_map {l : Level} (hindent : l.indent < k) (hcolumn : column < k)
    (t : Token) (ts : List Token) :
    ((l.rolled k t).append ts).closed column =
      (l.append (t :: (ts ++ [.blockEnd]))).closed column :=
  l.closed_rolled hindent (Int.ofNat_lt.2 hcolumn) t ts

/-- The dash of an item is read with the blanks behind it. -/
theorem step_dash {l : Level} (hindent : l.indent ≤ k) (hrest : Begins rest) (gap i n : Nat) :
    Step (l.scan ⟨'-' :: (spaces (gap + 1) ++ rest), i, n, k⟩ true none)
      (((l.rolled k .blockListStart).push .blockEntry).scan
        ⟨rest, i + 2 + gap, n, k + 2 + gap⟩ true none) := by
  have htoken := token_scan (itemDash_scan l ⟨'-' :: (spaces (gap + 1) ++ rest), i, n, k⟩)
    (reader?_dash (by rfl) i n k) rfl
  have hrolled : ((l.rolled k .blockListStart).push .blockEntry).indent = k :=
    Level.indent_rolled hindent
  have hnext : ((l.rolled k .blockListStart).push .blockEntry).indent ≤ ↑(k + 1) := by omega
  have hgap := step_gap (skipped_spaces true (gap + 1)) hrest hnext htoken (Nat.lt_succ_self _)
  have hlength (j : Nat) : j + 1 + (spaces (gap + 1)).length = j + 2 + gap := by
    rw [length_spaces]
    omega
  rw [hlength, hlength] at hgap
  exact hgap

end Runs

mutual

/-- **A value** is read up to the next line. -/
theorem Value.reads (v : Value) {l : Level} {after : List Char} {empty column k i n m : Nat}
    {s : Scan} (hindent : l.indent = k) (hm : k < m) (hcolumn : column ≤ k) (hafter : Begins after)
    (htoken : token s = some (false,
      l.scan ⟨v.text k ++ (newline empty column ++ after), i, n, m⟩ false none))
    (hlength : (v.text k ++ (newline empty column ++ after)).length < s.cursor.rest.length) :
    ∃ i' n', Reads s
      (((l.append v.tokens).closed column).scan ⟨after, i', n', column⟩ true none) := by
  have hclose : (column : Int) ≤ l.indent := by omega
  match v with
  | .phrase gap p trail =>
    rw [Value.text, List.append_assoc, List.append_assoc] at htoken hlength
    have hgap := step_gap gap.skipped (p.begins _) (by omega) htoken hlength
    have hfurther : l.indent < ↑(m + gap.text.length) := by omega
    obtain ⟨i', n', hphrase⟩ := step_phrase p trail false hclose hfurther hafter empty
      (i + gap.text.length) n
    exact ⟨i', n', .head hgap (.single hphrase)⟩
  | .literal gap trail deeper literal =>
    rw [Value.text, List.append_assoc, List.cons_append, List.append_assoc, List.append_assoc]
      at htoken hlength
    have hbar (rest : List Char) : Begins ('|' :: rest) := by
      intro c hc
      obtain rfl := Option.some.inj hc
      exact ⟨rfl, rfl, by decide, by decide⟩
    have hgap := step_gap gap.skipped (hbar _) (by omega) htoken hlength
    have hfurther : l.indent < ↑(k + 1 + deeper) := by omega
    have hcolumn' : column < k + 1 + deeper := by omega
    obtain ⟨i', n', hliteral⟩ := step_literal literal trail false hfurther hcolumn' hafter empty
      (i + gap.text.length) n (m + gap.text.length)
    exact ⟨i', n', .head hgap (.single hliteral)⟩
  | .map trail empty' deeper mapping =>
    rw [Value.text, List.append_assoc, List.append_assoc] at htoken hlength
    have hfurther : l.indent < ↑(k + 1 + deeper) := by omega
    have hcolumn' : column < k + 1 + deeper := by omega
    obtain ⟨i', n', hline⟩ := step_newline trail (mapping.begins _ _) (Int.le_of_lt hfurther) htoken
      hlength
    obtain ⟨i', n', hmap⟩ := mapping.reads (Int.le_of_lt hfurther) (Nat.le_of_lt hcolumn') hafter
      empty i' n'
    rw [Level.closed_map hfurther hcolumn'] at hmap
    exact ⟨i', n', .head hline hmap⟩
  | .list trail empty' 0 listing =>
    rw [Value.text, List.append_assoc, List.append_assoc] at htoken hlength
    have hsame : l.indent ≤ ↑(k + 0) := by omega
    obtain ⟨i', n', hline⟩ := step_newline trail (listing.begins _ _) hsame htoken hlength
    obtain ⟨i', n', hlist⟩ := listing.reads hsame hcolumn hafter empty i' n'
    rw [Level.rolled_of_le (by omega)] at hlist
    exact ⟨i', n', .head hline hlist⟩
  | .list trail empty' (deeper + 1) listing =>
    rw [Value.text, List.append_assoc, List.append_assoc] at htoken hlength
    have hfurther : l.indent < ↑(k + (deeper + 1)) := by omega
    have hcolumn' : column < k + (deeper + 1) := by omega
    obtain ⟨i', n', hline⟩ := step_newline trail (listing.begins _ _) (Int.le_of_lt hfurther) htoken
      hlength
    obtain ⟨i', n', hlist⟩ := listing.reads (Int.le_of_lt hfurther) (Nat.le_of_lt hcolumn') hafter
      empty i' n'
    rw [Level.closed_map hfurther hcolumn'] at hlist
    exact ⟨i', n', .head hline hlist⟩

/-- **A mapping** is read up to the next line. -/
theorem Mapping.reads (m : Mapping) {l : Level} {after : List Char} {column k : Nat}
    (hindent : l.indent ≤ k) (hcolumn : column ≤ k) (hafter : Begins after) (empty i n : Nat) :
    ∃ i' n', Reads (l.scan ⟨m.text k ++ (newline empty column ++ after), i, n, k⟩ true none)
      ((((l.rolled k .blockMapStart).append m.tokens).closed column).scan
        ⟨after, i', n', column⟩ true none) := by
  have hrolled (ts : List Token) : ((l.rolled k .blockMapStart).append ts).indent = k :=
    Level.indent_rolled hindent
  match m with
  | .last key v =>
    obtain ⟨s, hkey, htoken, hlength⟩ := step_key key (v.isBlankOrEnd empty column after k) hindent
    obtain ⟨i', n', hvalue⟩ := v.reads (hrolled key.tokens) (by omega) hcolumn hafter htoken hlength
    refine ⟨i', n', ?_⟩
    rw [Mapping.text, Mapping.tokens, List.append_assoc, List.cons_append]
    rw [Level.append_append] at hvalue
    exact .head hkey hvalue
  | .entry key v empty' more =>
    have hmore := more.begins k (newline empty column ++ after)
    have hvalues := hrolled (key.tokens ++ v.tokens)
    obtain ⟨s, hkey, htoken, hlength⟩ := step_key key
      (v.isBlankOrEnd empty' k (more.text k ++ (newline empty column ++ after)) k) hindent
    obtain ⟨i', n', hvalue⟩ := v.reads (hrolled key.tokens) (by omega) (Nat.le_refl k) hmore htoken
      hlength
    rw [Level.append_append, Level.closed_of_le (Int.le_of_eq hvalues)] at hvalue
    obtain ⟨i', n', hentries⟩ := more.reads (Int.le_of_eq hvalues) hcolumn hafter empty i' n'
    rw [Level.rolled_of_le (Int.le_of_eq hvalues.symm), Level.append_append] at hentries
    refine ⟨i', n', ?_⟩
    simp only [Mapping.text, Mapping.tokens, List.append_assoc, List.cons_append] at hentries ⊢
    exact .head hkey (hvalue.trans hentries)

/-- **An item** is read up to the next line. -/
theorem Item.reads (item : Item) {l : Level} {after : List Char} {column k : Nat}
    (hindent : l.indent ≤ k) (hcolumn : column ≤ k) (hafter : Begins after) (empty i n : Nat) :
    ∃ i' n', Reads (l.scan ⟨item.text k ++ (newline empty column ++ after), i, n, k⟩ true none)
      ((((l.rolled k .blockListStart).append item.tokens).closed column).scan
        ⟨after, i', n', column⟩ true none) := by
  have hrolled : ((l.rolled k .blockListStart).push .blockEntry).indent = k :=
    Level.indent_rolled hindent
  match item with
  | .phrase gap p trail =>
    have hclose : (column : Int) ≤ ((l.rolled k .blockListStart).push .blockEntry).indent := by
      omega
    have hfurther : ((l.rolled k .blockListStart).push .blockEntry).indent < ↑(k + 2 + gap) := by
      omega
    obtain ⟨i', n', hphrase⟩ := step_phrase p trail true hclose hfurther hafter empty
      (i + 2 + gap) n
    refine ⟨i', n', ?_⟩
    simp only [Item.text, List.append_assoc, List.cons_append]
    refine .head (step_dash hindent (p.begins _) gap i n) (.single ?_)
    rw [Level.push_eq_append, Level.append_append] at hphrase
    exact hphrase
  | .map gap m =>
    have hfurther : ((l.rolled k .blockListStart).push .blockEntry).indent < ↑(k + 2 + gap) := by
      omega
    have hcolumn' : column < k + 2 + gap := by omega
    obtain ⟨i', n', hmap⟩ := m.reads (Int.le_of_lt hfurther) (Nat.le_of_lt hcolumn') hafter empty
      (i + 2 + gap) n
    rw [Level.closed_map hfurther hcolumn', Level.push_eq_append, Level.append_append] at hmap
    refine ⟨i', n', ?_⟩
    simp only [Item.text, List.append_assoc, List.cons_append]
    exact .head (step_dash hindent (m.begins _ _) gap i n) hmap

/-- **A list** is read up to the next line. -/
theorem Listing.reads (listing : Listing) {l : Level} {after : List Char} {column k : Nat}
    (hindent : l.indent ≤ k) (hcolumn : column ≤ k) (hafter : Begins after) (empty i n : Nat) :
    ∃ i' n', Reads (l.scan ⟨listing.text k ++ (newline empty column ++ after), i, n, k⟩ true none)
      ((((l.rolled k .blockListStart).append listing.tokens).closed column).scan
        ⟨after, i', n', column⟩ true none) := by
  match listing with
  | .last item => exact item.reads hindent hcolumn hafter empty i n
  | .item item empty' more =>
    have hrolled : ((l.rolled k .blockListStart).append item.tokens).indent = k :=
      Level.indent_rolled hindent
    have hmore := more.begins k (newline empty column ++ after)
    obtain ⟨i', n', hitem⟩ := item.reads hindent (Nat.le_refl k) hmore empty' i n
    rw [Level.closed_of_le (Int.le_of_eq hrolled)] at hitem
    obtain ⟨i', n', hitems⟩ := more.reads (Int.le_of_eq hrolled) hcolumn hafter empty i' n'
    rw [Level.rolled_of_le (Int.le_of_eq hrolled.symm), Level.append_append] at hitems
    refine ⟨i', n', ?_⟩
    simp only [Listing.text, Listing.tokens, List.append_assoc] at hitems ⊢
    exact hitem.trans hitems

end

/-! ## The characters of a layout -/

/-- Characters that a text may hold. -/
def Allowed (cs : List Char) : Prop := ∀ c ∈ cs, isAllowed c = true

section Allowed

variable {cs cs' : List Char}

theorem Allowed.append (h : Allowed cs) (h' : Allowed cs') : Allowed (cs ++ cs') := fun c hc =>
  (List.mem_append.1 hc).elim (h c) (h' c)

theorem Allowed.cons {c : Char} (hc : isAllowed c = true) (h : Allowed cs) : Allowed (c :: cs) :=
  List.forall_mem_cons.2 ⟨hc, h⟩

theorem Allowed.nil : Allowed [] := fun _ h => absurd h List.not_mem_nil

theorem Allowed.of_inLine (h : ∀ c ∈ cs, inLine c = true) : Allowed cs := fun c hc =>
  (Bool.and_eq_true_iff.1 (h c hc)).1

theorem Allowed.flatMap {α : Type} {f : α → List Char} (h : ∀ a, Allowed (f a)) (as : List α) :
    Allowed (as.flatMap f) := fun c hc => by
  obtain ⟨a, -, hc⟩ := List.mem_flatMap.1 hc
  exact h a c hc

theorem allowed_spaces (n : Nat) : Allowed (spaces n) := fun c hc => by
  rw [List.eq_of_mem_replicate hc]
  rfl

theorem allowed_newline (empty column : Nat) : Allowed (newline empty column) := by
  refine .cons rfl (.append (fun c hc => ?_) (allowed_spaces column))
  rw [List.eq_of_mem_replicate hc]
  rfl

theorem Blanks.allowed (bs : Blanks) : Allowed bs.text := fun c hc => by
  have hblank := bs.areBlanks c hc
  rw [isBlank, Bool.or_eq_true, beq_iff_eq, beq_iff_eq] at hblank
  rcases hblank with rfl | rfl <;> rfl

theorem Chunk.allowed (c : Chunk) : Allowed c.text :=
  .of_inLine fun x hx => (Bool.and_eq_true_iff.1 (c.inWord x hx)).1

theorem Quote.allowed (q : Quote) : Allowed q.text := by
  have hmark : isAllowed (quoteMark q.single) = true := by cases q.single <;> rfl
  exact .cons hmark (.append (.of_inLine q.inLine) (.cons hmark .nil))

theorem Phrase.allowed (p : Phrase) : Allowed p.text := by
  cases p with
  | words w => exact w.first.allowed.append (.flatMap (fun c => c.1.allowed.append c.2.allowed) _)
  | quote q => exact q.allowed

theorem Key.allowed (k : Key) : Allowed k.text := by
  cases k with
  | word k => exact k.chunk.allowed
  | quote q => exact q.allowed

theorem Literal.allowed (l : Literal) (column : Nat) : Allowed (l.text column) :=
  .append (.of_inLine l.first.inLine)
    (.flatMap (fun line => (allowed_newline _ column).append (.of_inLine line.2.inLine)) _)

mutual

theorem Value.allowed (v : Value) (n : Nat) : Allowed (v.text n) := by
  match v with
  | .phrase gap p trail => exact gap.allowed.append (p.allowed.append trail.allowed)
  | .literal gap trail deeper l =>
    exact gap.allowed.append (.cons rfl (trail.allowed.append
      ((allowed_newline 0 _).append (l.allowed _))))
  | .map trail empty deeper m =>
    exact trail.allowed.append ((allowed_newline empty _).append (m.allowed _))
  | .list trail empty deeper l =>
    exact trail.allowed.append ((allowed_newline empty _).append (l.allowed _))

theorem Mapping.allowed (m : Mapping) (n : Nat) : Allowed (m.text n) := by
  match m with
  | .last k v => exact k.allowed.append (.cons rfl (v.allowed n))
  | .entry k v empty more =>
    exact k.allowed.append (.cons rfl ((v.allowed n).append
      ((allowed_newline empty n).append (more.allowed n))))

theorem Item.allowed (i : Item) (n : Nat) : Allowed (i.text n) := by
  match i with
  | .phrase gap p trail =>
    exact .cons rfl ((allowed_spaces _).append (p.allowed.append trail.allowed))
  | .map gap m => exact .cons rfl ((allowed_spaces _).append (m.allowed _))

theorem Listing.allowed (l : Listing) (n : Nat) : Allowed (l.text n) := by
  match l with
  | .last i => exact i.allowed n
  | .item i empty more =>
    exact (i.allowed n).append ((allowed_newline empty n).append (more.allowed n))

end

end Allowed

/-! ## Documents -/

theorem Mapping.document_eq (m : Mapping) (column : Nat) :
    m.document column = spaces column ++ (m.text column ++ (newline 0 0 ++ [])) := rfl

theorem Scan.start_of_head? {text : String} (h : text.toList.head? ≠ some '\uFEFF') :
    Scan.start text = (⟨#[], -1, []⟩ : Level).scan ⟨text.toList, 0, 0, 0⟩ true none := by
  unfold Scan.start
  split
  · rename_i cs hcs
    rw [hcs] at h
    exact absurd rfl h
  · rfl

theorem Mapping.head?_document (m : Mapping) (column : Nat) :
    (m.document column).head? ≠ some '\uFEFF' := by
  cases column with
  | zero => exact fun h => (m.begins 0 ['\n'] _ h).2.2.2 rfl
  | succ column => exact fun h => absurd (Option.some.inj h) (by decide)

/-- At the end of a document, its mapping is ended. -/
theorem closed_document {l : Level} {column : Nat} (hindent : l.indent = -1) (ts : List Token) :
    (((l.rolled column .blockMapStart).append ts).closed (0 : Nat)).closed (-1) =
      l.append (.blockMapStart :: (ts ++ [.blockEnd])) := by
  have hclosed (ts : List Token) (j : Int) (hj : -1 ≤ j) : (l.append ts).closed j = l.append ts :=
    Level.closed_of_le (show l.indent ≤ j by omega)
  cases column with
  | zero =>
    have hrolled : ((l.rolled 0 .blockMapStart).append ts).indent = (0 : Nat) :=
      Level.indent_rolled (by omega)
    rw [Level.closed_of_le (Int.le_of_eq hrolled), l.closed_rolled (by omega) (by decide),
      hclosed _ _ (Int.le_refl _)]
  | succ column =>
    rw [Level.closed_map (by omega) (Nat.succ_pos column), hclosed _ _ (by decide),
      hclosed _ _ (Int.le_refl _)]

/-- **The tokens of a document** that is a mapping in block layout. -/
theorem tokenize?_document {text : String} {m : Mapping} {column : Nat}
    (h : text.toList = m.document column) :
    tokenize? text = some (.blockMapStart :: (m.tokens ++ [.blockEnd, .streamEnd])) := by
  obtain ⟨l, hl⟩ : ∃ l : Level, l = ⟨#[], -1, []⟩ := ⟨_, rfl⟩
  have hindent : l.indent = -1 := by rw [hl]
  have hstart : Scan.start text = l.scan ⟨m.document column, 0, 0, 0⟩ true none := by
    rw [hl, ← h]
    exact Scan.start_of_head? (h ▸ m.head?_document column)
  have hallowed : (m.document column).all isAllowed = true :=
    List.all_eq_true.2 ((allowed_spaces column).append ((m.allowed column).append (.cons rfl .nil)))
  have hopen : l.indent ≤ (0 : Nat) := by omega
  have hsettle := settle_gap (skipped_spaces true column) (m.begins column (newline 0 0 ++ []))
    hopen 0 0
  rw [length_spaces, Nat.zero_add] at hsettle
  have hindent' : l.indent ≤ column := by omega
  have hend : Begins [] := fun c hc => by cases hc
  obtain ⟨i, n, hreads⟩ := m.reads hindent' (Nat.zero_le column) hend 0 column 0
  have hlength : (m.text column ++ (newline 0 0 ++ [])).length <
      (m.document column).length + 2 := by
    simp only [m.document_eq, List.length_append]
    omega
  have hall := all_of_reads hreads (token_end rfl) hsettle hlength
  rw [closed_document hindent] at hall
  rw [tokenize?]
  dsimp only
  rw [hstart]
  show (if (!(m.document column).all isAllowed) = true then none else
    (Scan.all ((m.document column).length + 2)
      (l.scan ⟨m.document column, 0, 0, 0⟩ true none)).map fun left => left.2.tokens.toList) = _
  rw [hallowed]
  refine (congrArg (Option.map fun left => left.2.tokens.toList) hall).trans ?_
  rw [hl]
  simp [Level.append, Level.push, Level.scan]

end ResourceCli.Yaml
