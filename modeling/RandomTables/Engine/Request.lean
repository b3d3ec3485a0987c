-- SUMMARY: Requests: rolling a table, expanding a template or rendering a pattern, and the results.
import RandomTables.Engine.Basic
import RandomTables.Evaluation.Answer
import RandomTables.Evaluation.Conditionals

/-!
# Requests

A request is evaluated in a fresh context, and then the conditionals of the collection are applied.
Errors of the language become part of the result, together with the segments, captures, descriptions
and trace from before the error. Only a breakdown of arithmetic gives no result.
-/
namespace RandomTables

/-- What an engine is asked to evaluate. -/
inductive Request where
  | roll (ref : String)
  | template (ref : String)
  | pattern (text : String)
  deriving DecidableEq, Repr

/-- How a request is evaluated. -/
structure Options where
  tracing : Bool := true
  /-- Shared variables beside those of the document. -/
  shared : Assoc String := []
  source : Source

/-- What an evaluation gives. -/
structure Report where
  text : String
  segments : List Segment
  trace : Option Trace
  captures : Assoc Captured
  descriptions : List Description
  error : Option RollError := none
  resultType : Option String := none
  assets : Assoc String := []
  /-- The sets of the entry that was rolled. -/
  sets : Assoc Content := []
  entryId : Option String := none

namespace Request

/-- A request in a message. -/
def label : Request → String
  | .roll ref => "roll " ++ ref
  | .template ref => "template " ++ ref
  | .pattern _ => "pattern"

/-- The segments that a request shows: only those of a pattern. -/
def shownSegments (segments : List Segment) : Request → List Segment
  | .pattern _ => segments
  | _ => []

/-- What a request refers to, which has to be of the right sort. -/
def target (r : Registry) (collectionId ref : String) (wantsTemplate : Bool) :
    Except ResolutionFailure Target := do
  let found ← r.resolve ref collectionId
  match found.definition, wantsTemplate with
  | .template _, false => throw (.notATable ref)
  | .table _, true => throw (.notATemplate ref)
  | _, _ => return found

section

variable (env : Surroundings) (answer : Answer)

/-- The outcome of a roll or of the expansion of a template. -/
def outcome (ref : String) (wantsTemplate : Bool) : Eval Outcome := do
  let found ← Eval.liftResolution (target env.registry env.collectionId ref wantsTemplate)
  answer (.roll found [])

/-- The outcome of a request, and the segments of a pattern. -/
def perform : Request → StateM Context (List Segment × Except Failure Outcome)
  | .roll ref => do return ([], ← (outcome env answer ref false).run)
  | .template ref => do return ([], ← (outcome env answer ref true).run)
  | .pattern text => do
    let rendering ← Eval.renderPattern env answer text env.collectionId
    return (rendering.segments, rendering.text.map fun text =>
      { text, collectionId := env.collectionId })

/-- Enters the scope of a document with extra shared variables. -/
def openDocument (d : Document) (extra : Assoc String) : Eval Unit := do
  let (_, shared) ← Eval.liftDeclaration
    ((← get).shared.pushDocument d.shared extra env.collectionId)
  modify fun c => { c with shared }

/-- The outcome of a request after the conditionals of a document, and the segments. -/
def complete (request : Request) (d : Document) (extra : Assoc String) :
    StateM Context (List Segment × Except Failure Outcome) := do
  match ← (openDocument env d extra).run with
  | .error f => return ([], .error f)
  | .ok () =>
    match ← request.perform env answer with
    | (segments, .error f) => return (segments, .error f)
    | (segments, .ok o) =>
      let (rendered, failure) ←
        Eval.amend env answer env.collectionId d.conditionals ⟨o.text, segments⟩
      match failure with
      | some f => return (rendered.segments, .error f)
      | none => return (rendered.segments, .ok { o with text := rendered.text })

end

end Request

namespace Report

/-- The result of an outcome. -/
def ofOutcome (c : Context) (segments : List Segment) (o : Outcome) : Report where
  text := o.text
  segments
  trace := (c.trace.conclude (.str o.text) none).2
  captures := c.captures
  descriptions := c.descriptionsInOrder
  resultType := o.resultType
  assets := o.assets
  sets := o.sets
  entryId := o.entryId

/-- The result of an error. -/
def ofError (c : Context) (segments : List Segment) (e : RollError) : Report where
  text := ""
  segments
  trace := (c.trace.conclude (.str "") (some e.message)).2
  captures := c.captures
  descriptions := c.descriptionsInOrder
  error := some e

end Report

namespace Engine

/-- The surroundings of an evaluation in a collection. -/
def surroundings (e : Engine) (c : Collection) : Surroundings where
  registry := e.registry
  base := e.config
  config := e.config.within c.document.metadata
  collectionId := c.id
  statics := c.document.statics

/-- The context in which an evaluation starts. -/
def freshContext (e : Engine) (request : Request) (options : Options) (statics : List String) :
    Context where
  shared := { statics }
  trace := .start options.tracing request.label
  source := options.source
  resolved := e.resolved

/-- Evaluates a request in a loaded collection. -/
def run (e : Engine) (c : Collection) (request : Request) (options : Options) :
    (List Segment × Except Failure Outcome) × Context :=
  let env := e.surroundings c
  (request.complete env (env.answer options.shared) c.document options.shared).run
    (e.freshContext request options c.document.statics.keys)

/-- The record of an evaluation that failed. -/
def failedRecord (collectionId : String) (request : Request) (error : RollError) : LogRecord :=
  ⟨.info, .engine, "Evaluation of " ++ request.label ++ " in '" ++ collectionId ++ "' failed: " ++
    error.message⟩

/-- The reply to a request that was evaluated. -/
def reply (e : Engine) (collectionId : String) (request : Request) (segments : List Segment)
    (result : Except Failure Outcome) (c : Context) : Reply (Except Failure Report) :=
  let engine := { e with resolved := c.resolved }
  let records := c.log.reverse
  let segments := request.shownSegments segments
  match result with
  | .ok o => ⟨.ok (.ofOutcome c segments o), engine, records⟩
  | .error (.error error) =>
    ⟨.ok (.ofError c segments error), engine, records ++ [failedRecord collectionId request error]⟩
  | .error f => ⟨.error f, engine, records⟩

/-- Evaluates a request in a collection. -/
def evaluate (e : Engine) (collectionId : String) (request : Request) (options : Options) :
    Reply (Except Failure Report) :=
  match e.registry.loaded collectionId with
  | .error error =>
    e.reply collectionId request [] (.error (.resolution error)) (e.freshContext request options [])
  | .ok c =>
    let ((segments, result), context) := e.run c request options
    e.reply collectionId request segments result context

end Engine

end RandomTables
