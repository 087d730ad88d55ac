import ResourceCli.Shape.Basic
import ResourceCli.Toml.Read

/-!
# Typed data from TOML

Takes the data of a TOML text by a shape.  Nothing is converted: where a text is wanted only a
text will do.  A record may be written as the list of its fields' values; entries that nobody asked
for are passed over.
-/

namespace ResourceCli.Shape

/-- The shape of a value that is there. -/
def present : Shape → Shape
  | optional s => s.present
  | s => s

/-- What is known of the fields of a record, with nothing for those that may be left out. -/
def completed? (fields : List Field) (known : List (String × Tree)) : Option (List (Option Tree)) :=
  fields.mapM fun f =>
    match known.lookup f.key with
    | some t => some (some t)
    | none => if f.required then none else some none

mutual

/-- A TOML value as data of a shape. -/
def ofToml? (shape : Shape) : Toml → Option Tree
  | .text s =>
    match shape.present with
    | text => some (.text s)
    | oneOrMore => some (.text s)
    | _ => none
  | .flag b =>
    match shape.present with
    | flag => some (.flag b)
    | _ => none
  | .list items =>
    match shape.present with
    | list s => .list <$> ofTomlItems? s items
    | record r => .record <$> ofTomlListed? r.fields items
    | oneOrMore => .list <$> ofTomlItems? .text items
    | _ => none
  | .table _ entries =>
    match shape.present with
    | table s => .table <$> ofTomlEntries? s entries
    | record r => do return .record (← completed? r.fields (← ofTomlKnown? r.fields entries))
    | _ => none
  | _ => none

/-- TOML values as items of a shape. -/
def ofTomlItems? (s : Shape) : List Toml → Option (List Tree)
  | [] => some []
  | v :: rest => do return (← ofToml? s v) :: (← ofTomlItems? s rest)

/-- The entries of a TOML table as entries of a shape. -/
def ofTomlEntries? (s : Shape) : List (String × Toml) → Option (List (String × Tree))
  | [] => some []
  | (key, v) :: rest => do return (key, ← ofToml? s v) :: (← ofTomlEntries? s rest)

/-- TOML values in the order of the fields of a record. -/
def ofTomlListed? : List Field → List Toml → Option (List (Option Tree))
  | [], _ => some []
  | fields, [] => fields.mapM fun f => if f.required then none else some none
  | f :: fields, v :: rest => do
    return some (← ofToml? f.shape v) :: (← ofTomlListed? fields rest)

/-- The entries of a TOML table that are fields of a record. -/
def ofTomlKnown? (fields : List Field) : List (String × Toml) → Option (List (String × Tree))
  | [] => some []
  | (key, v) :: rest =>
    match fields.find? (·.key == key) with
    | some f => do return (key, ← ofToml? f.shape v) :: (← ofTomlKnown? fields rest)
    | none => ofTomlKnown? fields rest

end

end ResourceCli.Shape
