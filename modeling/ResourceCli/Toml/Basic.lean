import ResourceCli.Number.Text

/-!
# TOML data

The data of a TOML text.  A text is a sequence of sections, each a header and entries under keys,
and a key may be dotted: it then leads through tables that need no header of their own.  Which
tables may still be added to depends on how they came about, so a table carries its `TableOrigin`;
the rules for adding an entry (`Toml.putEntry`) and a section (`Toml.putSection`) are about it.
-/

namespace ResourceCli

/-- How a table came about. -/
inductive TableOrigin
  /-- It lies on the way to a table with a header. -/
  | implied
  /-- A dotted key leads through it. -/
  | dotted
  /-- It has a header. -/
  | stated
  /-- It is written as a value. -/
  | inline
  deriving DecidableEq, Repr

/-- Data of a TOML text. -/
inductive Toml
  /-- A text. -/
  | text (s : String)
  /-- An integer. -/
  | integer (i : Int)
  /-- A number. -/
  | number (x : Number.Double)
  /-- A truth value. -/
  | flag (b : Bool)
  /-- A date, a time of day, or both, as it is written. -/
  | moment (s : String)
  /-- A list that is written as a value. -/
  | list (items : List Toml)
  /-- A list of tables that each have a header. -/
  | tables (items : List (List (String × Toml)))
  /-- A table. -/
  | table (origin : TableOrigin) (entries : List (String × Toml))
  deriving Inhabited

namespace Toml

/-- Whether a character may stand in a key without quotes. -/
def isKeyChar (c : Char) : Bool := c.isAlphanum || c == '_' || c == '-'

/-- The entries of a table, in the order in which their keys were met first. -/
abbrev Entries := List (String × Toml)

/-- The entries with another value for a key that is there. -/
def setEntry (key : String) (value : Toml) (entries : Entries) : Entries :=
  entries.map fun (k, v) => if k == key then (k, value) else (k, v)

/-- The entries with a value under a dotted key.  A key stands for one value, and a dotted key
leads only through tables that are written nowhere else. -/
def putEntry (value : Toml) (origin : Option TableOrigin) :
    List String → Entries → Option Entries
  | [], _ => none
  | [key], entries =>
    if (origin.getD .dotted) == .dotted && (entries.lookup key).isNone then
      some (entries ++ [(key, value)])
    else none
  | key :: rest, entries =>
    match entries.lookup key with
    | none => do
      return entries ++ [(key, .table .dotted (← putEntry value (some .dotted) rest []))]
    | some (.table inner old) =>
      if inner == .implied || inner == .dotted then do
        return setEntry key (.table inner (← putEntry value (some inner) rest old)) entries
      else none
    | some _ => none

/-- A header with the entries under it, each a dotted key with its value. -/
structure Section where
  /-- The keys that lead to the table. -/
  path : List String
  /-- Whether the table is one more of a list. -/
  isListed : Bool
  /-- The entries. -/
  entries : List (List String × Toml)

/-- The entries of a section put into those that a table has already. -/
def Section.addTo (s : Section) (entries : Entries) : Option Entries :=
  s.entries.foldlM (fun es (path, value) => putEntry value none path es) entries

/-- The entries with a section put in.  A table has one header at most, and a header leads
through the last table of a list. -/
def putSection (s : Section) : List String → Entries → Option Entries
  | [], _ => none
  | [key], entries =>
    match entries.lookup key, s.isListed with
    | none, false => do return entries ++ [(key, .table .stated (← s.addTo []))]
    | none, true => do return entries ++ [(key, .tables [← s.addTo []])]
    | some (.table .implied old), false => do
      return setEntry key (.table .stated (← s.addTo old)) entries
    | some (.tables items), true => do
      return setEntry key (.tables (items ++ [← s.addTo []])) entries
    | _, _ => none
  | key :: rest, entries =>
    match entries.lookup key with
    | none => do return entries ++ [(key, .table .implied (← putSection s rest []))]
    | some (.table .inline _) => none
    | some (.table origin old) => do
      return setEntry key (.table origin (← putSection s rest old)) entries
    | some (.tables items) => do
      let last ← putSection s rest (← items.getLast?)
      return setEntry key (.tables (items.dropLast ++ [last])) entries
    | some _ => none

/-- The table that sections make up; the first one is without a header. -/
def ofSections (top : List (List String × Toml)) (sections : List Section) : Option Entries := do
  let entries ← Section.addTo ⟨[], false, top⟩ []
  sections.foldlM (fun es s => putSection s s.path es) entries

end Toml

end ResourceCli
