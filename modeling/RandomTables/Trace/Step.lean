-- SUMMARY: Steps of a trace, and traces as trees with statistics.
import RandomTables.Directive.Basic
import RandomTables.Json.Basic

/-!
# Traces

A trace explains an evaluation: a tree of steps, each with what it was given, what it gave, and
details of its kind. Steps of document conditionals stand beside the tree.
-/
namespace RandomTables

/-- What a step of an evaluation is. -/
inductive StepKind where
  | root
  | directive (kind : Directive.Kind)
  | tableRoll | templateRef
  | compositeSelect | collectionMerge | entrySelect
  | sharedVariable | conditional | parseError
  | other (name : String)
  deriving DecidableEq, Repr

namespace StepKind

/-- The name of the steps that a kind of directive takes. -/
def directiveName : Directive.Kind → String
  | .dice => "dice_roll"
  | .math => "math_eval"
  | .table => "table_ref"
  | .multiRoll => "multi_roll"
  | .unique => "unique"
  | .again => "again"
  | .variable => "variable_access"
  | .captureAccess => "capture_access"
  | .captureProperty => "capture_access"
  | .placeholder => "placeholder_access"
  | .capture => "capture"
  | .collect => "collect"
  | .switch => "switch"

def name : StepKind → String
  | .root => "root"
  | .directive kind => directiveName kind
  | .tableRoll => "table_roll"
  | .templateRef => "template_ref"
  | .compositeSelect => "composite_select"
  | .collectionMerge => "collection_merge"
  | .entrySelect => "entry_select"
  | .sharedVariable => "shared_variable"
  | .conditional => "conditional"
  | .parseError => "parse_error"
  | .other name => name

end StepKind

/-- One step, without the steps inside it. -/
structure TraceStep where
  kind : StepKind
  label : String
  raw : String := ""
  /-- What was known of the step before it was taken. -/
  parsed : List (String × Json) := []
  value : Json := .null
  metadata : List (String × Json) := []
  error : Option String := none

/-- A step with the steps inside it. -/
inductive TraceTree where
  | node (step : TraceStep) (children : List TraceTree)

namespace TraceStep

def fields (n : TraceStep) : List (String × Json) :=
  [("type", .str n.kind.name), ("label", .str n.label),
    ("input", .obj (("raw", .str n.raw) ::
      if n.parsed.isEmpty then [] else [("parsed", .obj n.parsed)])),
    ("output", .obj (("value", n.value) ::
      match n.error with
      | some error => [("error", .str error)]
      | none => []))] ++
    if n.metadata.isEmpty then [] else [("metadata", .obj n.metadata)]

end TraceStep

namespace TraceTree

mutual

/-- The steps of a tree, each before those inside it. -/
def steps : TraceTree → List TraceStep
  | .node step children => step :: stepsAll children

def stepsAll : List TraceTree → List TraceStep
  | [] => []
  | t :: rest => steps t ++ stepsAll rest

end

mutual

/-- The number of levels of a tree. -/
def depth : TraceTree → Nat
  | .node _ children => depthAll children + 1

def depthAll : List TraceTree → Nat
  | [] => 0
  | t :: rest => max (depth t) (depthAll rest)

end

mutual

def toJson : TraceTree → Json
  | .node step [] => .obj step.fields
  | .node step (t :: rest) =>
    .obj (step.fields ++ [("children", .arr (toJson t :: toJsonAll rest))])

def toJsonAll : List TraceTree → List Json
  | [] => []
  | t :: rest => toJson t :: toJsonAll rest

end

end TraceTree

/-- A finished trace. -/
structure Trace where
  root : TraceTree
  /-- The steps beside the tree. -/
  conditionals : List TraceTree

namespace Trace

/-- All steps, those of the tree first. -/
def steps (t : Trace) : List TraceStep := t.root.steps ++ TraceTree.stepsAll t.conditionals

/-- How many steps go by a name. -/
def count (t : Trace) (name : String) : Nat := (t.steps.filter fun n => n.kind.name = name).length

def statistics (t : Trace) : Json :=
  .obj [("nodeCount", .int t.steps.length), ("maxDepth", .int t.root.depth),
    ("tableRolls", .int (t.count StepKind.tableRoll.name)),
    ("diceRolls", .int (t.count (StepKind.directiveName .dice))),
    ("variableAccesses", .int (t.count (StepKind.directiveName .variable)))]

def toJson (t : Trace) : Json :=
  .obj ([("root", t.root.toJson), ("stats", t.statistics)] ++
    if t.conditionals.isEmpty then []
    else [("conditionals", .arr (TraceTree.toJsonAll t.conditionals))])

end Trace

end RandomTables
