-- SUMMARY: Directives of a pattern: thirteen kinds of things to roll, read, capture or choose.
import RandomTables.Dice.Basic
import RandomTables.Expr.Basic

/-!
# Directives

A directive is an action, or a switch that chooses among texts and further directives by conditions
on a subject. Each keeps the text it was written as.
-/
namespace RandomTables

/-- The kinds of directives. -/
inductive Directive.Kind where
  | dice | math | table | multiRoll | unique | again | variable | captureAccess | captureProperty
  | placeholder | capture | collect | switch
  deriving DecidableEq, Repr

/-- The name of a kind. -/
def Directive.Kind.name : Directive.Kind → String
  | .dice => "dice"
  | .math => "math"
  | .table => "table"
  | .multiRoll => "multi_roll"
  | .unique => "unique"
  | .again => "again"
  | .variable => "variable"
  | .captureAccess => "capture_access"
  | .captureProperty => "capture_shared"
  | .placeholder => "placeholder"
  | .capture => "capture"
  | .collect => "collect"
  | .switch => "switch"

/-- What stands between results when a directive names no separator. -/
def defaultSeparator : String := ", "

/-- How often a roll is repeated. -/
inductive Multiplicity where
  | literal (n : Nat)
  | variable (name : String)
  | dice (spec : DiceFormula)
  deriving DecidableEq, Repr

namespace Multiplicity

/-- Where a count comes from. -/
def source : Multiplicity → String
  | .literal _ => "literal"
  | .variable _ => "variable"
  | .dice _ => "dice"

def text : Multiplicity → String
  | .literal n => toString n
  | .variable name => "$" ++ name
  | .dice spec => spec.text

end Multiplicity

/-- What can be asked of a capture apart from its items. -/
inductive CaptureAttribute where
  | count | value
  deriving DecidableEq, Repr

def CaptureAttribute.name : CaptureAttribute → String
  | .count => "count"
  | .value => "value"

/-- What a directive does, unless it is a switch. -/
inductive Action where
  | dice (spec : DiceFormula)
  | math (expression : Expr)
  /-- Rolls a table or expands a template; a named instance is rolled once. -/
  | table (ref : String) (instanceName : Option String)
  | multiRoll (count : Multiplicity) (ref : String) (unique : Bool) (separator : String)
  | unique (count : Nat) (ref : String) (separator : String)
  | again (count : Nat) (unique : Bool) (separator : String)
  | variable (name : String) (importAlias : Option String)
  | captureAccess (name : String) (index : Option Int) (asked : Option CaptureAttribute)
      (separator : Option String)
  | captureProperty (name : String) (index : Option Int) (properties : List String)
      (separator : Option String)
  | placeholder (name : String) (property : Option String)
  | capture (count : Multiplicity) (ref : String) (target : String) (unique silent : Bool)
      (separator : String)
  /-- Lists one property of every item of a capture, or of the items' sets. -/
  | collect (source : String) (property : String) (fromSets unique : Bool) (separator : String)

def Action.kind : Action → Directive.Kind
  | .dice .. => .dice
  | .math .. => .math
  | .table .. => .table
  | .multiRoll .. => .multiRoll
  | .unique .. => .unique
  | .again .. => .again
  | .variable .. => .variable
  | .captureAccess .. => .captureAccess
  | .captureProperty .. => .captureProperty
  | .placeholder .. => .placeholder
  | .capture .. => .capture
  | .collect .. => .collect

mutual

/-- A directive with the text it was written as. -/
inductive Directive where
  | act (raw : String) (action : Action)
  | switch (raw : String) (subject : Option Directive) (branches : List Branch)
      (otherwise : Option Consequence)

/-- A branch of a switch. -/
inductive Branch where
  | mk (condition : Expr) (result : Consequence)

/-- What a branch gives: a text, or the output of a directive. -/
inductive Consequence where
  | literal (text : String)
  | directive (d : Directive)

end

namespace Directive

/-- The text a directive was written as. -/
def raw : Directive → String
  | .act raw _ => raw
  | .switch raw .. => raw

def kind : Directive → Directive.Kind
  | .act _ action => action.kind
  | .switch .. => .switch

end Directive

def Branch.condition : Branch → Expr
  | .mk condition _ => condition

def Branch.result : Branch → Consequence
  | .mk _ result => result

/-- The text of a branch's result. -/
def Consequence.text : Consequence → String
  | .literal text => "\"" ++ text ++ "\""
  | .directive d => d.raw

end RandomTables
