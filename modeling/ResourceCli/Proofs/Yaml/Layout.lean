import ResourceCli.Yaml.Node

/-!
# Mappings in block layout

What a document in block layout looks like, said without a reader.  A `Mapping` is a mapping as it
is written: its entries stand below each other, and the value of a key is on the line of the key or
further in on the lines below.  A key is a word or a quoted text; a value is a line of words, a
quoted text, a literal text, another mapping or a list.  The items of a list are lines of words,
quoted texts and mappings, each behind a dash.

The layout leaves open how far each level is indented, where empty lines are, and what blanks stand
behind a colon and at the end of a line.  `Mapping.document` gives the characters, `Mapping.node`
the node that they describe.
-/

namespace ResourceCli.Yaml

/-! ## Pieces of a line -/

/-- Blanks within a line. -/
structure Blanks where
  /-- The characters. -/
  text : List Char
  /-- They are blanks. -/
  areBlanks : ∀ c ∈ text, isBlank c = true

/-- Some blanks within a line. -/
structure Gap extends Blanks where
  /-- There is one. -/
  ne_nil : text ≠ []

/-- Nothing. -/
def Blanks.none : Blanks := ⟨[], fun _ h => absurd h List.not_mem_nil⟩

/-- One space. -/
def Gap.space : Gap where
  text := [' ']
  areBlanks c h := by
    rw [List.mem_singleton.1 h]
    rfl
  ne_nil := List.cons_ne_nil _ _

/-- Spaces at the start of a line. -/
def spaces (n : Nat) : List Char := List.replicate n ' '

@[simp]
theorem length_spaces (n : Nat) : (spaces n).length = n := List.length_replicate

/-- The end of a line, some empty lines, and the start of the next line up to a column. -/
def newline (empty column : Nat) : List Char :=
  '\n' :: (List.replicate empty '\n' ++ spaces column)

/-- Whether a character may stand within a line. -/
def inLine (c : Char) : Bool := isAllowed c && !isBreak c

/-- Whether a character may stand within a word. -/
def inWord (c : Char) : Bool := inLine c && !isBlank c

/-- Whether a character says at the start of a word that no plain text starts there; a dot might
start the mark of a document. -/
def isMark (c : Char) : Bool :=
  ['-', '?', ':', ',', '[', ']', '{', '}', '#', '&', '*', '!', '|', '>', '\'', '"', '%', '@', '`',
    '.', '\uFEFF'].contains c

/-- Characters that stand together without a blank. -/
structure Chunk where
  /-- The first character. -/
  head : Char
  /-- The others. -/
  tail : List Char
  /-- They may stand within a word. -/
  inWord : ∀ c ∈ head :: tail, inWord c = true
  /-- They start no comment. -/
  noComment : head ≠ '#'
  /-- They do not end as a key does. -/
  noColon : (head :: tail).getLast? ≠ some ':'

/-- The characters of a chunk. -/
def Chunk.text (c : Chunk) : List Char := c.head :: c.tail

/-- A line of words. -/
structure Words where
  /-- The first one. -/
  first : Chunk
  /-- The others, each behind some blanks. -/
  more : List (Gap × Chunk)
  /-- A plain text may start with them. -/
  isStart : isMark first.head = false

/-- The characters of a line of words. -/
def Words.text (w : Words) : List Char :=
  w.first.text ++ w.more.flatMap fun c => c.1.text ++ c.2.text

/-- The quotes around a text. -/
def quoteMark (single : Bool) : Char := if single then '\'' else '"'

/-- A text in quotes that needs no escape. -/
structure Quote where
  /-- Whether its quotes are single ones. -/
  single : Bool
  /-- The characters between the quotes. -/
  inner : List Char
  /-- They may stand within a line. -/
  inLine : ∀ c ∈ inner, inLine c = true
  /-- No quote is among them. -/
  noQuote : quoteMark single ∉ inner
  /-- There is no backslash, if that would start an escape. -/
  noEscape : single = false → '\\' ∉ inner

/-- The characters of a text in quotes. -/
def Quote.text (q : Quote) : List Char := quoteMark q.single :: (q.inner ++ [quoteMark q.single])

/-- A text on one line. -/
inductive Phrase
  /-- A line of words. -/
  | words (w : Words)
  /-- A text in quotes. -/
  | quote (q : Quote)

/-- The characters of a text on one line. -/
def Phrase.text : Phrase → List Char
  | .words w => w.text
  | .quote q => q.text

/-- A word that can be a key. -/
structure KeyWord where
  /-- Its characters. -/
  chunk : Chunk
  /-- A plain text may start with it. -/
  isStart : isMark chunk.head = false
  /-- There is no colon in it. -/
  noColon : ':' ∉ chunk.text
  /-- It is not too long for a key. -/
  short : chunk.text.length ≤ 1024

/-- A key. -/
inductive Key
  /-- A word. -/
  | word (k : KeyWord)
  /-- A text in quotes that is not too long for a key. -/
  | quote (q : Quote) (short : q.text.length ≤ 1024)

/-- The characters of a key. -/
def Key.text : Key → List Char
  | .word k => k.chunk.text
  | .quote q _ => q.text

/-! ## Literal texts -/

/-- A line of a literal text, behind its indentation. -/
structure Line where
  /-- The characters. -/
  text : List Char
  /-- There is one. -/
  ne_nil : text ≠ []
  /-- They may stand within a line. -/
  inLine : ∀ c ∈ text, inLine c = true

/-- The lines of a literal text. -/
structure Literal where
  /-- The first line. -/
  first : Line
  /-- The other lines, each with the number of empty lines before it. -/
  more : List (Nat × Line)
  /-- The first line starts where its indentation ends. -/
  isStart : ∀ c ∈ first.text.head?, isBlank c = false

/-- The characters of a literal text whose lines start in a column, from the first one on. -/
def Literal.text (column : Nat) (l : Literal) : List Char :=
  l.first.text ++ l.more.flatMap fun line => newline line.1 column ++ line.2.text

/-! ## Mappings and lists -/

mutual

/-- The value of a key in a mapping. -/
inductive Value
  /-- A text on the line of the key. -/
  | phrase (gap : Gap) (p : Phrase) (trail : Blanks)
  /-- A literal text on the lines below. -/
  | literal (gap : Gap) (trail : Blanks) (deeper : Nat) (l : Literal)
  /-- A mapping on the lines below. -/
  | map (trail : Blanks) (empty deeper : Nat) (m : Mapping)
  /-- A list on the lines below, perhaps in the column of the key. -/
  | list (trail : Blanks) (empty deeper : Nat) (l : Listing)

/-- The entries of a mapping. -/
inductive Mapping
  /-- The last entry. -/
  | last (k : Key) (v : Value)
  /-- An entry with others below it. -/
  | entry (k : Key) (v : Value) (empty : Nat) (more : Mapping)

/-- An item of a list. -/
inductive Item
  /-- A text on one line. -/
  | phrase (gap : Nat) (p : Phrase) (trail : Blanks)
  /-- A mapping whose first key stands on the line of the dash. -/
  | map (gap : Nat) (m : Mapping)

/-- The items of a list. -/
inductive Listing
  /-- The last item. -/
  | last (i : Item)
  /-- An item with others below it. -/
  | item (i : Item) (empty : Nat) (more : Listing)

end

mutual

/-- The characters behind the colon of a key in column `n`. -/
def Value.text (n : Nat) : Value → List Char
  | .phrase gap p trail => gap.text ++ (p.text ++ trail.text)
  | .literal gap trail deeper l =>
    gap.text ++ '|' :: (trail.text ++ (newline 0 (n + 1 + deeper) ++ l.text (n + 1 + deeper)))
  | .map trail empty deeper m =>
    trail.text ++ (newline empty (n + 1 + deeper) ++ m.text (n + 1 + deeper))
  | .list trail empty deeper l => trail.text ++ (newline empty (n + deeper) ++ l.text (n + deeper))

/-- The characters of a mapping in column `n`, from its first key on. -/
def Mapping.text (n : Nat) : Mapping → List Char
  | .last k v => k.text ++ ':' :: v.text n
  | .entry k v empty more => k.text ++ ':' :: (v.text n ++ (newline empty n ++ more.text n))

/-- The characters of an item in column `n`, from its dash on. -/
def Item.text (n : Nat) : Item → List Char
  | .phrase gap p trail => '-' :: (spaces (gap + 1) ++ (p.text ++ trail.text))
  | .map gap m => '-' :: (spaces (gap + 1) ++ m.text (n + 2 + gap))

/-- The characters of a list in column `n`, from its first dash on. -/
def Listing.text (n : Nat) : Listing → List Char
  | .last i => i.text n
  | .item i empty more => i.text n ++ (newline empty n ++ more.text n)

end

/-- The characters of a document that is a mapping in a column. -/
def Mapping.document (column : Nat) (m : Mapping) : List Char :=
  spaces column ++ (m.text column ++ ['\n'])

/-! ## What they describe -/

/-- What a text on one line says. -/
def Phrase.said : Phrase → String
  | .words w => String.ofList w.text
  | .quote q => String.ofList q.inner

/-- How a text on one line is written. -/
def Phrase.style : Phrase → Style
  | .words _ => .plain
  | .quote _ => .quoted

/-- What a key says. -/
def Key.said : Key → String
  | .word k => String.ofList k.chunk.text
  | .quote q _ => String.ofList q.inner

/-- How a key is written. -/
def Key.style : Key → Style
  | .word _ => .plain
  | .quote _ _ => .quoted

/-- What a literal text says: its lines without their indentation. -/
def Literal.said (l : Literal) : String := String.ofList (l.text 0 ++ ['\n'])

/-- The node of a key. -/
def Key.node (k : Key) : Node := .scalar none k.said k.style

/-- The node of a text on one line. -/
def Phrase.node (p : Phrase) : Node := .scalar none p.said p.style

mutual

/-- The node of a value. -/
def Value.node : Value → Node
  | .phrase _ p _ => p.node
  | .literal _ _ _ l => .scalar none l.said .literal
  | .map _ _ _ m => .map none m.entries
  | .list _ _ _ l => .list none l.nodes

/-- The nodes of a mapping's keys and values. -/
def Mapping.entries : Mapping → List (Node × Node)
  | .last k v => [(k.node, v.node)]
  | .entry k v _ more => (k.node, v.node) :: more.entries

/-- The node of an item. -/
def Item.node : Item → Node
  | .phrase _ p _ => p.node
  | .map _ m => .map none m.entries

/-- The nodes of a list's items. -/
def Listing.nodes : Listing → List Node
  | .last i => [i.node]
  | .item i _ more => i.node :: more.nodes

end

/-- The node of a mapping. -/
def Mapping.node (m : Mapping) : Node := .map none m.entries

end ResourceCli.Yaml
