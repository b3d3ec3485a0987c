-- SUMMARY: Conditionals: changing a finished text, and its segments along with it.
import RandomTables.Evaluation.Pattern

/-!
# Conditionals

After an evaluation the conditionals of the document are checked in order, each against the text
that those before it left. A change of the text changes the segments too, so that they still join to
it: added text becomes a segment of its own, and a replacement makes all segments one.
-/
namespace RandomTables

/-- What a conditional does to the text. -/
inductive Change where
  | keep
  | append (added : String)
  | prepend (added : String)
  | become (text : String)
  deriving DecidableEq, Repr

/-- A text with its segments. -/
structure Rendered where
  text : String
  segments : List Segment := []
  deriving DecidableEq, Repr

namespace Change

/-- The text after a change. -/
def textAfter (text : String) : Change → String
  | .keep => text
  | .append added => text ++ added
  | .prepend added => added ++ text
  | .become text => text

/-- The position at which the last segment stops. -/
def stopOf (segments : List Segment) : Nat := (segments.getLast?.map (·.stop)).getD 0

/-- A segment that a conditional adds. -/
def addedSegment (condition : String) (action : ConditionalAction) (text : String)
    (start stop : Nat) : Segment := ⟨.conditional condition action, text, start, stop, condition⟩

/-- The segments after a change. -/
def segmentsAfter (condition : String) (segments : List Segment) : Change → List Segment
  | .keep => segments
  | .append added =>
    let stop := stopOf segments
    segments ++ [addedSegment condition .append added stop stop]
  | .prepend added => addedSegment condition .prepend added 0 0 :: segments
  | .become text => [addedSegment condition .replace text 0 (stopOf segments)]

/-- Applies a change. Segments are left alone where the text stays the same. -/
def apply (condition : String) (r : Rendered) (c : Change) : Rendered :=
  let text := c.textAfter r.text
  if text = r.text then r else ⟨text, c.segmentsAfter condition r.segments⟩

end Change

namespace Eval

section

variable (env : Surroundings) (answer : Answer) (collectionId : String)

/-- The text with every match of a pattern replaced. A malformed pattern changes nothing. -/
def replaceMatches (pattern value text : String) : Eval Change := do
  match Regex.parse pattern.toList with
  | .ok r => return .become (String.ofList (r.replace value.toList text.toList))
  | .error (.fault cause position) => do
    let message := Regex.faultMessage pattern.toList cause position
    modify (Context.record .warning .conditionals
      ("Invalid replace target '" ++ pattern ++ "': " ++ message))
    return .keep
  | .error (.breakdown f) => throw f

/-- The change that an action makes with a value. -/
def changeOf (c : Conditional) (value text : String) : Eval Change := do
  let target := c.target.getD ""
  match c.action with
  | .append => return .append value
  | .prepend => return .prepend value
  | .replace => if target.isEmpty then return .become value else replaceMatches target value text
  | .setVariable =>
    if !target.isEmpty then
      let shared ← liftDeclaration ((← get).shared.assign target (.text value))
      modify fun context => { context with shared }
    return .keep

/-- The change that a conditional makes, if its condition holds. -/
def evalConditional (c : Conditional) (text : String) : Eval (Option Change) := do
  let step : TraceStep := {
    kind := .conditional, label := "When: " ++ c.condition, raw := c.condition
    parsed := [("action", .str c.action.name)] }
  tracedApart step fun node => do
    let scope := expressionScope env answer false (some text) collectionId
    let change ← if ← Expr.holdsIn scope c.condition then
        let value ← answer (.pattern c.value collectionId)
        some <$> changeOf c value text
      else pure none
    setValue node (.bool change.isSome)
    return change

/-- Applies conditionals in order until one fails. Also tells how many conditions held. -/
def amendFrom : List Conditional → Rendered → Nat →
    StateM Context (Rendered × Except Failure Nat)
  | [], r, matched => pure (r, .ok matched)
  | c :: rest, r, matched => do
    match ← (evalConditional env answer collectionId c r.text).run with
    | .error f => return (r, .error f)
    | .ok none => amendFrom rest r matched
    | .ok (some change) => amendFrom rest (change.apply c.condition r) (matched + 1)

/-- Applies all conditionals of a document. What was changed before a failure stays changed. -/
def amend (conditionals : List Conditional) (r : Rendered) :
    StateM Context (Rendered × Option Failure) := do
  let (r, result) ← amendFrom env answer collectionId conditionals r 0
  match result with
  | .error f => return (r, some f)
  | .ok matched =>
    modify (Context.record .debug .conditionals
      ("Applied " ++ toString matched ++ " of " ++ toString conditionals.length ++ " conditionals"))
    return (r, none)

end

end Eval

end RandomTables
