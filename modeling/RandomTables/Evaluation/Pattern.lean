-- SUMMARY: Rendering patterns into segments, and the values of shared variables.
import RandomTables.Evaluation.Directive

/-!
# Rendering patterns

A pattern is rendered piece by piece. Every finished piece is one segment, and a failure keeps the
segments before it. The segments of a rendered pattern join to its text.
-/
namespace RandomTables

/-- The segments that were finished, and the failure that ended the rendering, if any. -/
structure Rendering where
  segments : List Segment
  failure : Option Failure := none

namespace Rendering

/-- A rendering with one more segment in front. -/
def cons (s : Segment) (r : Rendering) : Rendering := { r with segments := s :: r.segments }

/-- The text of a rendering that did not fail. -/
def text (r : Rendering) : Except Failure String :=
  match r.failure with
  | none => .ok (Segment.join r.segments)
  | some f => .error f

end Rendering

/-- The segment of a literal piece. -/
def Segment.ofLiteral (text : List Char) (start : Nat) : Segment where
  origin := .literal
  text := String.ofList text
  start
  stop := start + text.length
  raw := String.ofList text

/-- The segment of a directive with its output. -/
def Segment.ofSpan (span : Span) (kind : Directive.Kind) (output : String) : Segment where
  origin := .directive (String.ofList span.expression) kind
  text := output
  start := span.start
  stop := span.stop
  raw := String.ofList span.raw

namespace Eval

/-- The directive of a span. A malformed one leaves a step in the trace. -/
def parseSpan (span : Span) : Eval Directive := do
  match Directive.parse span.expression with
  | .ok d => return d
  | .error (.error (.parse e)) => do
    let raw := String.ofList span.raw
    note { kind := .parseError, label := "Parse error: " ++ raw, raw, value := .str ""
           metadata := [("error", .str e.message)] }
    throw (.error (.parse e))
  | .error f => throw f

section

variable (env : Surroundings) (answer : Answer)

/-- The segment of a span, and what a repetition would repeat after it. -/
def renderSpan (collectionId : String) (memory : Again) (span : Span) : Eval (Segment × Again) := do
  let d ← parseSpan span
  let (output, memory) ← renderDirective env answer collectionId memory d
  return (.ofSpan span d.kind output, memory)

/-- Renders pieces from left to right until one fails. -/
def renderPieces (collectionId : String) : Again → List Piece → StateM Context Rendering
  | _, [] => pure ⟨[], none⟩
  | memory, .literal text start :: rest => do
    return (← renderPieces collectionId memory rest).cons (.ofLiteral text start)
  | memory, .directive span :: rest => do
    match ← (renderSpan env answer collectionId memory span).run with
    | .error f => return ⟨[], some f⟩
    | .ok (segment, memory) => return (← renderPieces collectionId memory rest).cons segment

/-- Renders a pattern in a collection. -/
def renderPattern (pattern collectionId : String) : StateM Context Rendering :=
  renderPieces env answer collectionId .nothing (Piece.ofPattern pattern.toList)

/-- The text of a pattern in a collection. -/
def evalPattern (pattern collectionId : String) : Eval String := do
  let rendering ← renderPattern env answer pattern collectionId
  lift rendering.text

/-! ## Shared variables -/

/-- The item that a directive alone in a pattern refers to. -/
def referredItem (collectionId : String) : Directive → Eval (Option Item)
  | .act _ (.captureProperty name index properties _) => do
    let items ← readItems env answer name collectionId
    let item ← nthItem items (index.getD 0) name
    return item.bind fun i => i.along properties
  | .act _ (.captureAccess name (some index) _ _) => do
    let items ← readItems env answer name collectionId
    nthItem items index name
  | _ => return none

/-- The item of a pattern: that of a roll or reference alone, else an item of the pattern's text. -/
def evalKeeping (pattern collectionId : String) : Eval Item := do
  match ← onlyTable env pattern collectionId with
  | some target => return (← answer (.roll target [])).item
  | none =>
    let referred ← match ← lift (onlyDirective pattern) with
      | some d => referredItem env answer collectionId d
      | none => pure none
    match referred with
    | some item => return item
    | none => return { value := ← answer (.pattern pattern collectionId) }

/-- What a declaration evaluates to. -/
def evalDeclaration (d : Declaration) (collectionId : String) : Eval Content := do
  if d.keepsItem then return (← evalKeeping env answer d.pattern collectionId).content
  else return .text (← answer (.pattern d.pattern collectionId))

/-- The value of a shared variable of a scope. -/
def evalShared (owner collectionId : String) (d : Declaration) : Eval Content := do
  let collectionId := if collectionId.isEmpty then env.collectionId else collectionId
  let step : TraceStep := {
    kind := .sharedVariable, label := "Shared: $" ++ d.name, raw := d.pattern
    parsed := [("scope", .str owner)] }
  traced step fun node => do
    let value ← evalDeclaration env answer d collectionId
    setValue node (.str value.value)
    return value

end

end Eval

end RandomTables
