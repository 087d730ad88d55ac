import ResourceCli.Failure.Message
import ResourceCli.Json.Basic
import ResourceCli.Text.Blank

/-!
# Reporting a failure

A failure as a user sees it: in words, with the hint and further details below, or as a JSON
object.  The plain faults of files and readers take no details.
-/

namespace ResourceCli

/-- A failure with details that say more. -/
structure Report where
  /-- What went wrong. -/
  failure : Failure
  /-- Further details. -/
  details : Option String := none

instance : Coe Failure Report := ⟨fun f => { failure := f }⟩

namespace Failure

/-- The title over the message of a plain fault, and the hint below it. -/
def heading : Failure → String × Option String
  | file fault =>
    (match fault.kind with
      | .notFound => "File Not Found"
      | .permissionDenied => "Permission Denied"
      | .other => "File System Error", fileHint? fault)
  | json _ => ("JSON Parsing Error", none)
  | yaml => ("YAML Parsing Error", none)
  | _ => ("Network Error", none)

/-- The failure as a JSON object. -/
def toJson (f : Failure) : Json :=
  .obj [("error_type", .str f.typeName), ("message", .str f.message),
    ("context", (f.hint?.map Json.str).getD .null)]

end Failure

namespace Report

/-- A line of its own, after an empty one, if there is something to say. -/
def paragraph (lead : String) : Option String → String
  | none => ""
  | some text => "\n\n" ++ lead ++ text

/-- The failure in words, with hint and details. -/
def rendered (r : Report) : String :=
  match r.failure.kind? with
  | some _ =>
    r.failure.display ++ paragraph "Hint: " r.failure.hint? ++
      paragraph "" (r.details.map Text.trimEnd)
  | none =>
    let (title, hint) := r.failure.heading
    title ++ "\n" ++ r.failure.message ++ paragraph "Hint: " hint

end Report

end ResourceCli
