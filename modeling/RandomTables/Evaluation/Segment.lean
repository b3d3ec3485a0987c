-- SUMMARY: Segments: the stretches of a rendered pattern and where they come from.
import RandomTables.Directive.Basic
import RandomTables.Document.Basic
import RandomTables.Json.Basic

/-!
# Segments

A rendered pattern is a row of segments: text of the pattern, outputs of directives, and text that a
conditional added. Each knows the part of the pattern that it stands for.
-/
namespace RandomTables

/-- Where the text of a segment comes from. -/
inductive SegmentOrigin where
  | literal
  | directive (expression : String) (kind : Directive.Kind)
  | conditional (condition : String) (action : ConditionalAction)
  deriving DecidableEq, Repr

structure Segment where
  origin : SegmentOrigin
  text : String
  start : Nat
  stop : Nat
  /-- The part of the pattern as it is written. -/
  raw : String
  deriving DecidableEq, Repr

namespace Segment

/-- The names of an origin and what they stand for. -/
def originFields : SegmentOrigin → String × List (String × Json)
  | .literal => ("literal", [])
  | .directive expression kind =>
    ("expression", [("expression", .str expression), ("kind", .str kind.name)])
  | .conditional condition action =>
    ("conditional", [("expression", .str condition), ("kind", .str action.name)])

def toJson (s : Segment) : Json :=
  let (name, details) := originFields s.origin
  .obj ([("type", .str name), ("text", .str s.text), ("start", .int s.start), ("end", .int s.stop),
    ("raw", .str s.raw)] ++ details)

/-- The text of some segments in a row. -/
def join (segments : List Segment) : String := String.join (segments.map (·.text))

end Segment

end RandomTables
