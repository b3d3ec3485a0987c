-- SUMMARY: Documents from JSON text, bytes or values, refused with all their issues.
import RandomTables.Document.Integrity
import RandomTables.Document.Reader
import RandomTables.Document.Writer
import RandomTables.Error
import RandomTables.Json.Reader
import RandomTables.Json.Utf8
import RandomTables.Json.Writer
import RandomTables.Log

/-!
# Loading documents

A draft is what a document is read from. It has to be JSON, of the right form, and free of errors;
warnings are logged and do no harm. A numeral with too many digits breaks the reading down.
-/
namespace RandomTables

/-- What a document is read from. -/
inductive Draft where
  /-- The code points of a text. -/
  | text (codes : List Nat)
  | bytes (octets : List Nat)
  | value (j : Json)

namespace Draft

/-- The error for JSON text with a fault at a position. -/
def invalidJson (codes : List Nat) (fault : Json.Fault) (position : Nat) : Failure :=
  let (line, column) := Json.lineColumn codes position
  .document (.invalidJson fault.message line column)

/-- The JSON value of code points. -/
def decode (codes : List Nat) : Except Failure Json :=
  match Json.ofCodePoints codes with
  | .ok j => .ok j
  | .error (.fault fault position) => .error (invalidJson codes fault position)
  | .error (.breakdown f) => .error f

/-- The JSON value of a draft. -/
def json : Draft → Except Failure Json
  | .value j => .ok j
  | .text (0xfeff :: codes) => .error (invalidJson (0xfeff :: codes) .byteOrderMark 0)
  | .text codes => decode codes
  | .bytes octets =>
    match Utf8.decode octets with
    | .ok codes => decode codes
    | .error (position, fault) => .error (.document (.invalidUtf8 position fault.message))

end Draft

namespace Document

/-- The document that a JSON value describes. -/
def ofJson (j : Json) : Except Failure Document :=
  match j with
  | .obj fields =>
    match Document.read (.obj fields) with
    | .ok d => .ok d
    | .refused issues => .error (.document (.schema (issues.map (·.text))))
  | _ => .error (.document .notAnObject)

/-- The document that a draft describes, whether it is sound or not. -/
def ofDraft (draft : Draft) : Except Failure Document := do
  let j ← draft.json
  ofJson j

/-- The records of the warnings on a document. -/
def warnings (d : Document) : List LogRecord :=
  (d.findings.filter (!·.isError)).map fun f =>
    ⟨.warning, .validation, d.metadata.namespaceText ++ ": " ++ f.text⟩

/-- The errors of a document. -/
def errors (d : Document) : List Finding := d.findings.filter (·.isError)

/-- Refuses a document with errors. -/
def ensureSound (d : Document) : Except Failure Document :=
  if d.errors.isEmpty then .ok d else .error (.document (.integrity (d.errors.map (·.text))))

/-- The sound document that a draft describes, and the records that loading it leaves. -/
def load (draft : Draft) : Except Failure Document × List LogRecord :=
  match ofDraft draft with
  | .ok d => (d.ensureSound, d.warnings)
  | .error e => (.error e, [])

/-- A document as JSON text. -/
def jsonText (d : Document) (indent : Option Nat) : String := Json.text indent d.toJson

end Document

end RandomTables
