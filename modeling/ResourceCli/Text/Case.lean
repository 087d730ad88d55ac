import ResourceCli.Text.CaseTable

/-!
# Changing case

The lower-case and upper-case forms of characters and texts, for all of Unicode.  The forms are
looked up in the runs of `CaseTable`; a character in no run is its own form.  The change goes
character by character, without regard to neighbours.
-/

namespace ResourceCli.Text

/-- Whether `n` is a member of the run. -/
def CaseRun.covers (r : CaseRun) (n : Nat) : Bool :=
  r.low ≤ n && n ≤ r.high && (n - r.low) % r.step == 0

/-- The other case of `c` by a table of runs and a table of longer forms. -/
def otherCase (runs : List CaseRun) (specials : List (Nat × List Nat)) (c : Char) : List Char :=
  match specials.lookup c.toNat with
  | some form => form.map Char.ofNat
  | none =>
    match runs.find? (·.covers c.toNat) with
    | some r => [Char.ofNat (Int.toNat (c.toNat + r.shift))]
    | none => [c]

/-- The lower-case form of a character. -/
def lowerChar (c : Char) : List Char :=
  if c.toNat < 128 then [c.toLower] else otherCase lowerRuns lowerSpecials c

/-- The upper-case form of a character. -/
def upperChar (c : Char) : List Char :=
  if c.toNat < 128 then [c.toUpper] else otherCase upperRuns upperSpecials c

/-- A text with every character in its lower-case form. -/
def lowercase (s : String) : String :=
  String.ofList (s.toList.flatMap lowerChar)

/-- A text with every character in its upper-case form. -/
def uppercase (s : String) : String :=
  String.ofList (s.toList.flatMap upperChar)

/-- A text whose first character is in its upper-case form. -/
def capitalize (s : String) : String :=
  match s.toList with
  | [] => ""
  | c :: rest => String.ofList (upperChar c ++ rest)

@[simp] theorem capitalize_empty : capitalize "" = "" := rfl

/-- A component name in kebab-case: a hyphen before every ASCII capital that does not start the
name, then everything in lower case, so that `BookEdition` becomes `book-edition`. -/
def kebabCase (s : String) : String :=
  match s.toList with
  | [] => ""
  | c :: rest =>
    String.ofList (lowerChar c ++
      rest.flatMap fun d => if d.isUpper then '-' :: lowerChar d else lowerChar d)

@[simp] theorem kebabCase_empty : kebabCase "" = "" := rfl

end ResourceCli.Text
