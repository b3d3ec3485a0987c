-- SUMMARY: Results and errors of evaluations as JSON.
import RandomTables.Engine.Request

/-!
# Writing results

A result is written with its text, segments, captures and descriptions. The trace, the error and the
details of a roll are written only where there are any.
-/
namespace RandomTables

/-- What an error has beside its kind and message. -/
def RollError.details : RollError → List (String × Json)
  | .depth e => [("limit", .int e.limit), ("chain", Json.ofList e.chain)]
  | .document e => [("issues", Json.ofList e.issues)]
  | _ => []

def RollError.toJson (e : RollError) : Json :=
  .obj ([("kind", .str e.kind), ("message", .str e.message)] ++ e.details)

/-- A field, unless it is left out. -/
def fieldUnless (leftOut : Bool) (name : String) (value : Json) : List (String × Json) :=
  if leftOut then [] else [(name, value)]

/-- The field of a text, unless there is none or it is empty. -/
def textField (name : String) (text : Option String) : List (String × Json) :=
  fieldUnless (text.getD "").isEmpty name (Json.ofOption text)

namespace Report

def toJson (r : Report) : Json :=
  .obj ([("ok", .bool r.error.isNone), ("text", .str r.text),
    ("segments", .arr (r.segments.map Segment.toJson)), ("captures", capturesJson r.captures),
    ("descriptions", .arr (r.descriptions.map Description.toJson))] ++
    (r.trace.toList.map fun t => ("trace", t.toJson)) ++
    (r.error.toList.map fun e => ("error", e.toJson)) ++
    textField "resultType" r.resultType ++
    fieldUnless r.assets.isEmpty "assets" (Json.ofTexts r.assets) ++
    fieldUnless r.sets.isEmpty "placeholders" (.obj (Content.setsJson r.sets)) ++
    textField "entryId" r.entryId)

end Report

end RandomTables
