import ResourceCli.Document.Flags
import ResourceCli.Document.Typed
import ResourceCli.Failure.Basic
import ResourceCli.Shape.Json
import ResourceCli.Shape.Yaml

/-!
# Reading a document

A document may be written in JSON or in YAML.  A text that starts with a brace is read as JSON
first, any other as YAML first; if that fails, the other one is tried, and if both fail, the fault
of the first one is reported.
-/

namespace ResourceCli

namespace Document

/-- The shape of a document. -/
def shape : Shape := .record .document

/-- Reads a document whose flags are truth values. -/
def readNormalized (jsonFirst : Bool) (text : String) : Except Failure Document :=
  if jsonFirst then
    match Shape.ofJson shape text with
    | .ok data => .ok (ofTree data)
    | .error defect =>
      match Shape.ofYaml? shape text with
      | some data => .ok (ofTree data)
      | none => .error (.json defect)
  else
    match Shape.ofYaml? shape text with
    | some data => .ok (ofTree data)
    | none =>
      match Shape.ofJson shape text with
      | .ok data => .ok (ofTree data)
      | .error _ => .error .yaml

/-- Reads a document. -/
def read (text : String) : Except Failure Document :=
  readNormalized (looksJson text) (normalizeFlags text)

end Document

/-- Reads a schema that is written in JSON. -/
def Schema.read (text : String) : Except Failure Schema :=
  match Shape.ofJson (.record .schema) text with
  | .ok data => .ok (Schema.ofTree data)
  | .error defect => .error (.json defect)

/-- The failure of following a reference. -/
def ReferenceFault.failure : ReferenceFault → Failure
  | missing reference => .schemaNotFound reference
  | circular reference => .circularReference reference

end ResourceCli
