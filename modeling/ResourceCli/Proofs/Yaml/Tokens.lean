import ResourceCli.Proofs.Yaml.Literals

/-!
# Tokens in block layout

What the steps of the scanner do outside of flow collections, where at most one key is pending.  The
state is then given by a `Level`, the tokens so far and the open collections of the block, together
with the place in the text, whether a key may start there, and the pending key; and each step has
one lemma that says what it makes of such a state.

* `valueIndicator_scan`: the colon behind a key puts the tokens of the key before it.
* `skipToToken_blanks`, `skipToToken_newline`: what stands before a token is passed over.
* `settle_scan`, `token_scan`: from token to token.
* `reader?_plain` and the others: what reads a token is known by its first character.
-/

namespace ResourceCli.Yaml

/-- What has been read so far, and the collections of the block that are open. -/
structure Level where
  /-- The tokens so far. -/
  tokens : Array Token
  /-- The column of the innermost collection. -/
  indent : Int
  /-- The columns of the collections around it. -/
  indents : List Int

namespace Level

/-- The state of reading at a place outside of flow collections. -/
def scan (l : Level) (c : Cursor) (allowed : Bool) (key : Option PendingKey) : Scan where
  cursor := c
  tokens := l.tokens
  pending := [key]
  keyAllowed := allowed
  indent := l.indent
  indents := l.indents

/-- One more token. -/
def push (l : Level) (t : Token) : Level := { l with tokens := l.tokens.push t }

/-- The collections that are further in than a column are ended. -/
def closed (l : Level) (column : Int) : Level :=
  let left := Scan.closeTo column l.tokens l.indent l.indents
  ⟨left.1, left.2.1, left.2.2⟩

/-- A collection is opened in a column, unless one is open there. -/
def rolled (l : Level) (column : Nat) (t : Token) : Level :=
  if (column : Int) ≤ l.indent then l
  else ⟨l.tokens.push t, column, l.indent :: l.indents⟩

end Level

open Scan

/-! ## Tokens that are put before others -/

theorem insertIdx_length_append {α : Type} (x : α) (ys : List α) :
    ∀ xs : List α, (xs ++ ys).insertIdx xs.length x = xs ++ x :: ys
  | [] => rfl
  | y :: xs => congrArg (y :: ·) (insertIdx_length_append x ys xs)

/-- A token is put before the last ones. -/
theorem toList_insertIdxIfInBounds {α : Type} {ts : Array α} {before after : List α} (x : α)
    (h : ts.toList = before ++ after) :
    (ts.insertIdxIfInBounds before.length x).toList = before ++ x :: after := by
  have hle : before.length ≤ ts.size := by
    rw [← Array.length_toList, h, List.length_append]
    exact Nat.le_add_right _ _
  rw [Array.insertIdxIfInBounds, dif_pos hle, Array.toList_insertIdx, h]
  exact insertIdx_length_append x after before

theorem insertIdxIfInBounds_push {α : Type} (ts : Array α) (x t : α) :
    (ts.push t).insertIdxIfInBounds ts.size x = (ts.push x).push t := by
  refine Array.toList_inj.1 ?_
  rw [← Array.length_toList, toList_insertIdxIfInBounds x (Array.toList_push ..)]
  simp only [Array.toList_push, List.append_assoc, List.singleton_append]

theorem insertIdxIfInBounds_push_push {α : Type} (ts : Array α) (x t u : α) :
    ((ts.push u).push t).insertIdxIfInBounds ts.size x = ((ts.push x).push u).push t := by
  refine Array.toList_inj.1 ?_
  rw [← Array.length_toList, @toList_insertIdxIfInBounds _ _ _ ([u] ++ [t]) x (by
    rw [Array.toList_push, Array.toList_push, List.append_assoc])]
  simp only [Array.toList_push, List.append_assoc, List.cons_append, List.nil_append]

/-! ## Single tokens -/

section Steps

variable {α β : Type} {s s' : Scan} {l : Level} {c c' : Cursor} {key : Option PendingKey}
  {allowed : Bool}

theorem bind_of_some {m : ScanM α} {f : α → ScanM β} {a : α} (h : m s = some (a, s')) :
    (m >>= f) s = f a s' := by
  show StateT.bind m f s = _
  unfold StateT.bind
  rw [h]
  rfl

/-- The key that may start at a place. -/
def Level.keyAt (l : Level) (c : Cursor) : PendingKey :=
  ⟨l.indent == c.column, l.tokens.size, c.index, c.line, c.column⟩

/-- The key that is remembered when a scalar is read. -/
def Level.saved (l : Level) (c : Cursor) (allowed : Bool) : Option PendingKey :=
  if allowed then some (l.keyAt c) else none

theorem saveKey_none :
    saveKey (l.scan c allowed none) = some ((), l.scan c allowed (l.saved c allowed)) := by
  cases allowed <;> rfl

theorem get_bind (f : Scan → ScanM β) : (get >>= f) s = f s s := rfl

theorem lift_bind {o : Option α} {a : α} (h : o = some a) (f : α → ScanM β) :
    (liftM o >>= f) s = f a s := by
  rw [h]
  rfl

theorem allowKey_scan (b : Bool) :
    allowKey b (l.scan c allowed key) = some ((), l.scan c b key) := rfl

theorem plainScalar_scan (l : Level) (allowed : Bool) {text : String} {broken : Bool}
    (h : plain false (l.indent + 1).toNat {} c (c.rest.length + 1) = some (text, broken, c')) :
    plainScalar (l.scan c allowed none) =
      some ((), (l.push (.scalar text .plain)).scan c' broken (l.saved c allowed)) := by
  rw [plainScalar, bind_of_some saveKey_none, bind_of_some (allowKey_scan false), get_bind]
  refine (lift_bind h _).trans ?_
  cases broken <;> rfl

theorem quoted_scan (l : Level) (allowed : Bool) {text : String} {single : Bool}
    (h : quotedScalar single c = some (text, c')) :
    quoted single (l.scan c allowed none) =
      some ((), (l.push (.scalar text .quoted)).scan c' false (l.saved c allowed)) := by
  rw [quoted, bind_of_some saveKey_none, bind_of_some (allowKey_scan false), get_bind]
  exact lift_bind h _

theorem blockScalar_scan (l : Level) (allowed : Bool) {text : String}
    (h : block true l.indent c = some (text, c')) :
    blockScalar true (l.scan c allowed none) =
      some ((), (l.push (.scalar text .literal)).scan c' true none) := by
  have hdrop : dropKey (l.scan c allowed none) = some ((), l.scan c allowed none) := rfl
  rw [blockScalar, bind_of_some hdrop, bind_of_some (allowKey_scan true), get_bind]
  exact lift_bind h _

theorem rollIndent_scan (column : Nat) (t : Token) :
    rollIndent column none t (l.scan c allowed key) =
      some ((), (l.rolled column t).scan c allowed key) := by
  show some ((), if decide ((column : Int) ≤ l.indent) = true then l.scan c allowed key else _) = _
  rw [Level.rolled]
  by_cases h : (column : Int) ≤ l.indent
  · rw [decide_eq_true h, if_pos rfl, if_pos h]
  · rw [decide_eq_false h, if_neg Bool.false_ne_true, if_neg h]
    rfl

theorem itemDash_scan (l : Level) (c : Cursor) :
    itemDash (l.scan c true none) =
      some ((), ((l.rolled c.column .blockListStart).push .blockEntry).scan c.skip true none) := by
  have hopen : openBlock .blockListStart (l.scan c true none) = _ :=
    rollIndent_scan c.column .blockListStart
  rw [itemDash, bind_of_some hopen]
  rfl

theorem rollIndent_place (l : Level) (c : Cursor) (column : Nat) (t u v : Token) :
    rollIndent column (some l.tokens.size) t (((l.push u).push v).scan c false none) =
      some ((), (((l.rolled column t).push u).push v).scan c false none) := by
  show some ((), if decide ((column : Int) ≤ l.indent) = true then _ else _) = _
  rw [Level.rolled]
  by_cases h : (column : Int) ≤ l.indent
  · rw [decide_eq_true h, if_pos rfl, if_pos h]
  · have hplace : ((l.tokens.push u).push v).insertIdxIfInBounds l.tokens.size t =
        ((l.tokens.push t).push u).push v := insertIdxIfInBounds_push_push l.tokens t v u
    rw [decide_eq_false h, if_neg Bool.false_ne_true, if_neg h, Level.push, Level.push, Level.scan]
    dsimp only
    rw [hplace]
    rfl

/-- The colon behind a key puts the tokens of the key and of its mapping before it. -/
theorem valueIndicator_scan (l : Level) (c : Cursor) (t : Token) (k : PendingKey)
    (hplace : k.place = l.tokens.size) :
    valueIndicator ((l.push t).scan c false (some k)) =
      some ((), ((((l.rolled k.column .blockMapStart).push .key).push t).push .value).scan c.skip
        false none) := by
  have hset : (set (({ l with tokens := (l.tokens.push t).insertIdxIfInBounds k.place .key } :
      Level).scan c false none) : ScanM Unit) ((l.push t).scan c false (some k)) =
        some ((), ((l.push .key).push t).scan c false none) := by
    rw [hplace, insertIdxIfInBounds_push]
    rfl
  have hroll := rollIndent_place l c k.column .blockMapStart .key t
  rw [← hplace] at hroll
  rw [valueIndicator, get_bind]
  refine (bind_of_some hset).trans ((bind_of_some hroll).trans ?_)
  rfl

theorem finish_scan :
    finish (l.scan c allowed none) =
      some ((), ((l.closed (-1)).push .streamEnd).scan c false none) := rfl

/-! ## Between tokens -/

theorem forall_mem_none {p : PendingKey → Prop} : ∀ k ∈ (none : Option PendingKey), p k :=
  fun _ h => absurd h (Option.not_mem_none _)

/-- A key that the text has run away from is forgotten. -/
theorem dropStaleKeys_scan (h : ∀ k ∈ key, k.required = false ∧ k.line < c.line) :
    dropStaleKeys (l.scan c allowed key) = some ((), l.scan c allowed none) := by
  cases key with
  | none => rfl
  | some k =>
    obtain ⟨hrequired, hline⟩ := h k rfl
    rw [dropStaleKeys, get_bind]
    simp only [Level.scan, List.any_cons, List.any_nil, Option.any_some, hrequired, hline,
      decide_true, Bool.true_or, Bool.and_false, Bool.or_false, Bool.false_eq_true, if_false,
      List.map_cons, List.map_nil, Option.filter_some, Bool.not_true]
    rfl

/-- A key on the same line that is not too long stays. -/
theorem dropStaleKeys_fresh {k : PendingKey} (hline : k.line = c.line)
    (hindex : c.index ≤ k.index + 1024) :
    dropStaleKeys (l.scan c allowed (some k)) = some ((), l.scan c allowed (some k)) := by
  have hline : ¬ k.line < c.line := by omega
  have hindex : ¬ k.index + 1024 < c.index := by omega
  rw [dropStaleKeys, get_bind]
  simp only [Level.scan, List.any_cons, List.any_nil, Option.any_some, hline, hindex,
    decide_false, Bool.or_self, Bool.false_and, Bool.false_eq_true, if_false, List.map_cons,
    List.map_nil, Option.filter_some, Bool.not_false]
  rfl

/-- Nothing has to be passed over before these characters, on any line. -/
def Begins (cs : List Char) : Prop :=
  ∀ c ∈ cs.head?, isBlank c = false ∧ isBreak c = false ∧ c ≠ '#' ∧ c ≠ '\uFEFF'

/-- Blanks that are passed over; where a key may start, tabs are none. -/
def Skipped (allowed : Bool) (bs : List Char) : Prop :=
  ∀ b ∈ bs, isBlank b = true ∧ (allowed = true → b = ' ')

theorem skipped_nil (allowed : Bool) : Skipped allowed [] := fun _ h => absurd h List.not_mem_nil

theorem skipped_spaces (allowed : Bool) (n : Nat) : Skipped allowed (spaces n) := fun b hb => by
  rw [List.eq_of_mem_replicate hb]
  exact ⟨rfl, fun _ => rfl⟩

/-- Behind a token, any blanks are passed over. -/
theorem Blanks.skipped (bs : Blanks) : Skipped false bs.text := fun b hb =>
  ⟨bs.areBlanks b hb, fun h => absurd h Bool.false_ne_true⟩

/-- Blanks are passed over to the end of a line or to a token. -/
theorem skipToToken_line (l : Level) (key : Option PendingKey) {bs rest : List Char}
    (hbs : Skipped allowed bs)
    (hrest : ∀ c ∈ rest.head?, isBlank c = false ∧ c ≠ '#' ∧ c ≠ '\uFEFF') (i n m fuel : Nat) :
    skipToToken (l.scan ⟨bs ++ rest, i, n, m⟩ allowed key) (fuel + 1) =
      let c : Cursor := ⟨rest, i + bs.length, n, m + bs.length⟩
      if (c.peek 0).any isBreak then skipToToken (l.scan c.skipBreak true key) fuel
      else l.scan c allowed key := by
  have hmark : (⟨bs ++ rest, i, n, m⟩ : Cursor).sees '\uFEFF' = false := by
    refine beq_eq_false_iff_ne.2 fun h => ?_
    rw [Cursor.peek, ← List.head?_eq_getElem?] at h
    cases bs with
    | nil => exact (hrest _ h).2.2 rfl
    | cons b bs =>
      obtain rfl := Option.some.inj h
      exact Bool.false_ne_true (hbs _ List.mem_cons_self).1
  have hskip : (⟨bs ++ rest, i, n, m⟩ : Cursor).skipWhile
      (fun x => x == ' ' || ((l.scan ⟨bs ++ rest, i, n, m⟩ allowed key).inFlow ||
        !(l.scan ⟨bs ++ rest, i, n, m⟩ allowed key).keyAllowed) && x == '\t') =
        ⟨rest, i + bs.length, n, m + bs.length⟩ := by
    refine Cursor.skipWhile_append (fun b hb => ?_) fun c hc => ?_
    · cases allowed with
      | true => rw [(hbs b hb).2 rfl]; rfl
      | false => exact (hbs b hb).1
    · have hblank := (hrest c hc).1
      rw [isBlank, Bool.or_eq_false_iff] at hblank
      rw [hblank.1, hblank.2, Bool.and_false, Bool.or_false]
  have hcomment : (⟨rest, i + bs.length, n, m + bs.length⟩ : Cursor).sees '#' = false := by
    refine beq_eq_false_iff_ne.2 fun h => ?_
    rw [Cursor.peek, ← List.head?_eq_getElem?] at h
    exact (hrest _ h).2.1 rfl
  have hcursor : (l.scan ⟨bs ++ rest, i, n, m⟩ allowed key).cursor = ⟨bs ++ rest, i, n, m⟩ := rfl
  have hallowed : ((l.scan ⟨bs ++ rest, i, n, m⟩ allowed key).keyAllowed ||
      !(l.scan ⟨bs ++ rest, i, n, m⟩ allowed key).inFlow) = true := Bool.or_true _
  rw [skipToToken, hcursor, hmark, Bool.and_false, if_neg Bool.false_ne_true]
  dsimp only
  rw [hskip, hcomment, if_neg Bool.false_ne_true, hallowed]
  rfl

theorem skipToToken_blanks (l : Level) (key : Option PendingKey) {bs rest : List Char}
    (hbs : Skipped allowed bs) (hrest : Begins rest) (i n m fuel : Nat) :
    skipToToken (l.scan ⟨bs ++ rest, i, n, m⟩ allowed key) (fuel + 1) =
      l.scan ⟨rest, i + bs.length, n, m + bs.length⟩ allowed key := by
  have hbreak :
      ((⟨rest, i + bs.length, n, m + bs.length⟩ : Cursor).peek 0).any isBreak = false := by
    cases rest with
    | nil => rfl
    | cons c rest => exact (hrest c rfl).2.1
  rw [skipToToken_line l key hbs fun c hc => ⟨(hrest c hc).1, (hrest c hc).2.2⟩]
  dsimp only
  rw [hbreak, if_neg Bool.false_ne_true]

/-- A line is passed over to its end. -/
theorem skipToToken_break (l : Level) (key : Option PendingKey) {bs : List Char}
    (hbs : Skipped allowed bs) (rest : List Char) (i n m fuel : Nat) :
    skipToToken (l.scan ⟨bs ++ '\n' :: rest, i, n, m⟩ allowed key) (fuel + 1) =
      skipToToken (l.scan ⟨rest, i + bs.length + 1, n + 1, 0⟩ true key) fuel :=
  skipToToken_line l key hbs (fun c hc => by
    obtain rfl := Option.some.inj hc
    exact ⟨rfl, by decide, by decide⟩) i n m fuel

/-- Empty lines and the spaces of the next line are passed over. -/
theorem skipToToken_empty (l : Level) (key : Option PendingKey) {rest : List Char}
    (hrest : Begins rest) (column : Nat) : ∀ (empty i n fuel : Nat), empty < fuel →
      skipToToken (l.scan ⟨List.replicate empty '\n' ++ (spaces column ++ rest), i, n, 0⟩ true key)
        fuel = l.scan ⟨rest, i + empty + column, n + empty, column⟩ true key
  | 0, i, n, fuel + 1, _ => by
    have hspaces := skipToToken_blanks l key (skipped_spaces true column) hrest i n 0 fuel
    rw [length_spaces, Nat.zero_add] at hspaces
    exact hspaces
  | empty + 1, i, n, fuel + 1, hfuel => by
    have hbreak := skipToToken_break l key (skipped_nil true)
      (List.replicate empty '\n' ++ (spaces column ++ rest)) i n 0 fuel
    refine hbreak.trans ((skipToToken_empty l key hrest column empty (i + 1) (n + 1) fuel
      (Nat.lt_of_succ_lt_succ hfuel)).trans ?_)
    rw [Nat.add_assoc i, Nat.add_assoc n, Nat.add_comm 1]

theorem skipToToken_newline (l : Level) (key : Option PendingKey) {bs rest : List Char}
    (hbs : Skipped allowed bs) (hrest : Begins rest) (column empty i n m : Nat) {fuel : Nat}
    (hfuel : empty + 1 < fuel) :
    skipToToken (l.scan ⟨bs ++ (newline empty column ++ rest), i, n, m⟩ allowed key) fuel =
      l.scan ⟨rest, i + bs.length + 1 + empty + column, n + 1 + empty, column⟩ true key := by
  obtain ⟨fuel, rfl⟩ : ∃ k, fuel = k + 1 := ⟨fuel - 1, by omega⟩
  rw [newline, List.cons_append, List.append_assoc, skipToToken_break l key hbs]
  exact skipToToken_empty l key hrest column empty _ _ _ (Nat.lt_of_succ_lt_succ hfuel)

/-! ## From token to token -/

theorem settle_scan {s : Scan}
    (hskip : skipToToken s (s.cursor.rest.length + 1) = l.scan c allowed key)
    (hkey : ∀ k ∈ key, k.required = false ∧ k.line < c.line) :
    settle s = some ((), (l.closed c.column).scan c allowed none) := by
  have hmodify : (modify fun s : Scan => skipToToken s (s.cursor.rest.length + 1) : ScanM Unit) s =
      some ((), l.scan c allowed key) := by
    rw [← hskip]
    rfl
  rw [settle, bind_of_some hmodify, bind_of_some (dropStaleKeys_scan hkey), get_bind]
  rfl

theorem token_scan {x : Char} {read : ScanM Unit} (h : read (l.scan c allowed key) = some ((), s'))
    (hread : reader? false c x = some read) (hpeek : c.rest.head? = some x) :
    token (l.scan c allowed key) = some (false, s') := by
  have hpeek : (l.scan c allowed key).cursor.peek 0 = some x := by
    rw [← hpeek, List.head?_eq_getElem?]
    rfl
  have hread : reader? (l.scan c allowed key).inFlow (l.scan c allowed key).cursor x = some read :=
    hread
  rw [token, get_bind, hpeek]
  dsimp only
  rw [hread]
  dsimp only
  rw [bind_of_some h]
  rfl

theorem token_end (hpeek : c.rest = []) :
    token (l.scan c allowed none) =
      some (true, ((l.closed (-1)).push .streamEnd).scan c false none) := by
  have hpeek : (l.scan c allowed none).cursor.peek 0 = none := by
    show c.rest[0]? = none
    rw [hpeek]
    rfl
  rw [token, get_bind, hpeek]
  dsimp only
  rw [bind_of_some finish_scan]
  rfl

theorem seesMark_of_head? {x y : Char} (hpeek : c.rest.head? = some x) (h : x ≠ y) :
    c.seesMark y = false :=
  seesMark_eq_false fun h' => h (Option.some.inj (hpeek.symm.trans h'))

theorem reader?_plain {x : Char} (hpeek : c.rest.head? = some x) (hmark : isMark x = false)
    (hblank : isBlank x = false) (hbreak : isBreak x = false) :
    reader? false c x = some plainScalar := by
  have hdash := seesMark_of_head? hpeek (ne_of_isMark hmark (x := '-') rfl)
  have hdot := seesMark_of_head? hpeek (ne_of_isMark hmark (x := '.') rfl)
  simp only [isMark, List.contains_cons, List.contains_nil, Bool.or_eq_false_iff] at hmark
  simp only [reader?, startsPlain, hdash, hdot, hmark, hblank, hbreak, List.contains_cons,
    List.contains_nil, Bool.and_false, Bool.false_and, Bool.or_self, Bool.false_eq_true, if_false,
    Bool.not_false, Bool.true_or, if_true]

theorem reader?_quote (single : Bool) (hpeek : c.rest.head? = some (quoteMark single)) :
    reader? false c (quoteMark single) = some (quoted single) := by
  have hdash := seesMark_of_head? hpeek (y := '-') (by cases single <;> decide)
  have hdot := seesMark_of_head? hpeek (y := '.') (by cases single <;> decide)
  cases single <;> simp [reader?, hdash, hdot, quoteMark]

theorem reader?_colon {rest : List Char} (hrest : isBlankOrEnd rest.head? = true) (i n m : Nat) :
    reader? false ⟨':' :: rest, i, n, m⟩ ':' = some valueIndicator := by
  have hdash := seesMark_of_head? (c := ⟨':' :: rest, i, n, m⟩) (y := '-') rfl (by decide)
  have hdot := seesMark_of_head? (c := ⟨':' :: rest, i, n, m⟩) (y := '.') rfl (by decide)
  rw [List.head?_eq_getElem?] at hrest
  simp [reader?, hdash, hdot, Cursor.peek, hrest]

theorem reader?_dash {rest : List Char} (hrest : isBlankOrEnd rest.head? = true) (i n m : Nat) :
    reader? false ⟨'-' :: rest, i, n, m⟩ '-' = some itemDash := by
  have hdash : (⟨'-' :: rest, i, n, m⟩ : Cursor).seesMark '-' = false := by
    have hnext : (⟨'-' :: rest, i, n, m⟩ : Cursor).sees '-' 1 = false :=
      beq_eq_false_iff_ne.2 fun h => by
        rw [List.head?_eq_getElem?, show rest[0]? = some '-' from h] at hrest
        exact Bool.false_ne_true hrest
    rw [Cursor.seesMark, hnext]
    simp only [Bool.and_false, Bool.false_and]
  have hdot := seesMark_of_head? (c := ⟨'-' :: rest, i, n, m⟩) (y := '.') rfl (by decide)
  rw [List.head?_eq_getElem?] at hrest
  simp [reader?, hdash, hdot, Cursor.peek, hrest]

theorem reader?_bar (rest : List Char) (i n m : Nat) :
    reader? false ⟨'|' :: rest, i, n, m⟩ '|' = some (blockScalar true) := by
  have hdash := seesMark_of_head? (c := ⟨'|' :: rest, i, n, m⟩) (y := '-') rfl (by decide)
  have hdot := seesMark_of_head? (c := ⟨'|' :: rest, i, n, m⟩) (y := '.') rfl (by decide)
  simp [reader?, hdash, hdot]

end Steps

end ResourceCli.Yaml
