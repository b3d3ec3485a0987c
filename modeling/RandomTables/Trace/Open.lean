-- SUMMARY: Building a trace step by step, with a stack of open steps.
import RandomTables.Trace.Step

/-!
# Building traces

Every step that is begun has a number and is listed among the children of the step open at that
moment; detached steps are listed apart. Steps can be closed in any order, but only the innermost
open one is taken off the stack. A trace that is not enabled records nothing.
-/
namespace RandomTables

/-- A recorded step with the numbers of the steps inside it. -/
structure TraceEntry where
  step : TraceStep
  children : Array Nat := #[]

/-- A trace under construction. -/
structure OpenTrace where
  enabled : Bool
  /-- All steps in the order in which they began; the first one is the root. -/
  entries : Array TraceEntry
  /-- The open steps inside the root, innermost first. -/
  stack : List Nat := []
  detached : Array Nat := #[]

namespace OpenTrace

/-- A trace of nothing but its root. -/
def start (enabled : Bool) (label : String) : OpenTrace :=
  { enabled, entries := #[{ step := { kind := .root, label } }] }

/-- The number of the innermost open step. -/
def innermost (b : OpenTrace) : Nat := b.stack.headD 0

/-- The innermost open step. -/
def innermostStep (b : OpenTrace) : TraceStep :=
  match b.entries[b.innermost]? with
  | some entry => entry.step
  | none => { kind := .root, label := "" }

/-- Changes a step. -/
def modify (b : OpenTrace) (id : Nat) (f : TraceStep → TraceStep) : OpenTrace :=
  { b with entries := b.entries.modify id fun entry => { entry with step := f entry.step } }

/-- Records a step inside the innermost open one. -/
def record (b : OpenTrace) (step : TraceStep) : OpenTrace :=
  let id := b.entries.size
  let entries := b.entries.modify b.innermost fun entry =>
    { entry with children := entry.children.push id }
  { b with entries := entries.push { step } }

/-- Begins a step. The answer is its number, if the trace is enabled. -/
def enter (b : OpenTrace) (step : TraceStep) : Option Nat × OpenTrace :=
  if b.enabled then
    (some b.entries.size, { b.record step with stack := b.entries.size :: b.stack })
  else (none, b)

/-- Begins a step beside the tree. -/
def enterApart (b : OpenTrace) (step : TraceStep) : Option Nat × OpenTrace :=
  if b.enabled then
    let id := b.entries.size
    (some id, { b with
      entries := b.entries.push { step }
      stack := id :: b.stack
      detached := b.detached.push id })
  else (none, b)

/-- Records a step that has no steps inside it. -/
def note (b : OpenTrace) (step : TraceStep) : OpenTrace :=
  if b.enabled then b.record step else b

/-- Sets the value of a step. -/
def setValue (b : OpenTrace) (id : Option Nat) (value : Json) : OpenTrace :=
  match id with
  | some id => b.modify id fun n => { n with value }
  | none => b

/-- Adds details to a step. -/
def annotate (b : OpenTrace) (id : Option Nat) (details : List (String × Json)) :
    OpenTrace :=
  match id with
  | some id => b.modify id fun n => { n with metadata := Assoc.putAll n.metadata details }
  | none => b

/-- Marks a step with an error, unless its text is empty. -/
def setError (b : OpenTrace) (id : Option Nat) (error : String) : OpenTrace :=
  match id with
  | some id => if error.isEmpty then b else b.modify id fun n => { n with error := some error }
  | none => b

/-- Takes a step off the stack if it is the innermost open one. -/
def leave (b : OpenTrace) (id : Option Nat) : OpenTrace :=
  match id with
  | some id => if b.stack.head? = some id then { b with stack := b.stack.drop 1 } else b
  | none => b

/-! ## Finishing -/

/-- The tree of a step. The fuel bounds the number of levels. -/
def tree (entries : Array TraceEntry) : Nat → Nat → TraceTree
  | 0, _ => .node { kind := .root, label := "" } []
  | fuel + 1, id =>
    match entries[id]? with
    | some entry => .node entry.step (entry.children.toList.map (tree entries fuel))
    | none => .node { kind := .root, label := "" } []

/-- Closes whatever is open and gives the trace, if the trace is enabled. -/
def conclude (b : OpenTrace) (value : Json) (error : Option String) :
    OpenTrace × Option Trace :=
  let error := error.filter fun text => !text.isEmpty
  let b := { b.modify 0 fun n => { n with value, error } with stack := [] }
  if b.enabled then
    let tree := tree b.entries b.entries.size
    (b, some ⟨tree 0, b.detached.toList.map tree⟩)
  else (b, none)

end OpenTrace

end RandomTables
