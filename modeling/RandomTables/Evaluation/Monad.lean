-- SUMMARY: Computations on a context that can fail, and the brackets that restore what they opened.
import RandomTables.Evaluation.Context
import RandomTables.Evaluation.Segment

/-!
# Evaluations

An evaluation changes the context and gives a value or fails; what it changed before failing stays
changed. Whatever a bracket opens is closed again on every way out.
-/
namespace RandomTables

/-- A computation on a context that can fail. -/
abbrev Eval := ExceptT Failure (StateM Context)

/-- What a roll of a table, or the expansion of a template, gives. -/
structure Outcome where
  text : String
  tableId : String := ""
  collectionId : String := ""
  resultType : Option String := none
  assets : Assoc String := []
  sets : Assoc Content := []
  entryId : Option String := none
  /-- What excludes the drawn entry from later draws. -/
  key : Option String := none
  description : Option String := none

/-- An outcome as an item of a capture. -/
def Outcome.item (o : Outcome) : Item := ⟨o.text, o.sets, o.description⟩

/-- What evaluations ask for while they run: each question has an answer of its own type. -/
inductive Call : Type → Type where
  /-- The text of a pattern in a collection. -/
  | pattern (text collectionId : String) : Call String
  /-- A roll of a table without the excluded entries, or the expansion of a template. -/
  | roll (target : Target) (excluded : List String) : Call Outcome
  /-- The value of a shared variable of a scope. -/
  | shared (owner collectionId : String) (declaration : Declaration) : Call Content

/-- How calls are answered. -/
abbrev Answer := {α : Type} → Call α → Eval α

namespace Eval

variable {α : Type}

def fail (f : Failure) : Eval α := throw f

def lift : Except Failure α → Eval α
  | .ok a => pure a
  | .error f => throw f

def liftResolution : Except ResolutionFailure α → Eval α
  | .ok a => pure a
  | .error e => throw (.resolution e)

def liftDeclaration : Except DeclarationFailure α → Eval α
  | .ok a => pure a
  | .error e => throw (.declaration e)

/-- Draws at random from the source of the evaluation. -/
def draw (d : Draw α) : Eval α := fun c =>
  let (result, source) := d.run c.source
  (result, { c with source })

def log (level : LogLevel) (message : String) : Eval Unit :=
  modify (Context.record level .evaluator message)

/-- Resolves tables and remembers them. -/
def resolving (x : Resolve α) : Eval α := fun c =>
  let (result, s) := x.run ⟨c.resolved, []⟩
  (result, { c with resolved := s.tables, log := s.log ++ c.log })

/-! ## Trace -/

def note (step : TraceStep) : Eval Unit :=
  modify fun c => { c with trace := c.trace.note step }

def annotate (id : Option Nat) (details : List (String × Json)) : Eval Unit :=
  modify fun c => { c with trace := c.trace.annotate id details }

def setValue (id : Option Nat) (value : Json) : Eval Unit :=
  modify fun c => { c with trace := c.trace.setValue id value }

def setError (id : Option Nat) (error : String) : Eval Unit :=
  modify fun c => { c with trace := c.trace.setError id error }

/-- Closes a step, marked with the failure if there is one. -/
def closeStep (id : Option Nat) (result : Except Failure α) (trace : OpenTrace) : OpenTrace :=
  match result with
  | .ok _ => trace.leave id
  | .error (.error e) => (trace.setError id e.message).leave id
  | .error _ => trace.leave id

/-- Evaluates inside a step that was begun. -/
def inside (begun : Option Nat × OpenTrace) (body : Option Nat → Eval α) : Eval α := fun c =>
  let (result, c) := (body begun.1).run { c with trace := begun.2 }
  (result, { c with trace := closeStep begun.1 result c.trace })

/-- Evaluates inside a new step of the trace. -/
def traced (step : TraceStep) (body : Option Nat → Eval α) : Eval α := do
  inside ((← get).trace.enter step) body

/-- Evaluates inside a new step beside the tree of the trace. -/
def tracedApart (step : TraceStep) (body : Option Nat → Eval α) : Eval α := do
  inside ((← get).trace.enterApart step) body

/-! ## Brackets -/

/-- Evaluates on a changed context and closes again what the change opened. -/
def bracket (opened : Context) (close : Except Failure α → Context → Context) (body : Eval α) :
    Eval α := fun _ =>
  let (result, c) := body.run opened
  (result, close result c)

/-- Evaluates one level deeper. -/
def descending (limit : Nat) (label : String) (body : Eval α) : Eval α := do
  match (← get).enterLevel limit label with
  | .error e => throw (.error (.depth e))
  | .ok opened => bracket opened (fun _ => Context.ascend) body

/-- Evaluates while a table is being rolled. -/
def withFrame (frame : Frame) (body : Eval α) : Eval α := do
  let c ← get
  bracket { c with frames := frame :: c.frames }
    (fun _ c => { c with frames := c.frames.drop 1 }) body

/-- Evaluates while a set is under evaluation. -/
def guarding (guard : String) (body : Eval α) : Eval α := do
  let c ← get
  bracket { c with guards := guard :: c.guards }
    (fun _ c => { c with guards := c.guards.drop 1 }) body

/-- Evaluates in the scope of a table or template. -/
def inScope (owner : String) (declarations : Option (Assoc String)) (collectionId : String)
    (body : Eval α) : Eval α := do
  let c ← get
  match ← liftDeclaration (c.shared.enter owner (declarations.getD []) collectionId) with
  | none => body
  | some (_, shared) =>
    bracket { c with shared } (fun _ c => { c with shared := c.shared.leave }) body

/-- Evaluates a shared variable and keeps its value. -/
def settling (p : Pending) (body : Eval Content) : Eval Content := do
  let c ← get
  let value ← bracket { c with shared := p.store }
    (fun result c => { c with shared := p.resume result.toOption c.shared }) body
  modify (Context.record .debug .context
    ("Shared variable '" ++ p.declaration.name ++ "' evaluated in " ++ p.scope.owner))
  return value

end Eval

end RandomTables
