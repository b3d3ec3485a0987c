-- SUMMARY: The state of one evaluation and the fixed surroundings it runs in.
import RandomTables.Random.Source
import RandomTables.Registry.Inheritance
import RandomTables.Shared.Store
import RandomTables.Trace.Open

/-!
# The context of an evaluation

Every evaluation starts with a fresh context, so evaluations share nothing but the registry and the
resolved tables. The surroundings stay the same throughout.
-/
namespace RandomTables

/-- What does not change during an evaluation. -/
structure Surroundings where
  registry : Registry
  /-- The configuration before metadata are applied to it. -/
  base : Config
  /-- The configuration of the collection that the evaluation is for. -/
  config : Config
  collectionId : String
  /-- The static variables of that collection. -/
  statics : Assoc String

/-- A roll of a simple table that is going on. -/
structure Frame where
  /-- The resolved table. -/
  table : SimpleTable
  collectionId : String
  entryId : Option String
  description : Option String

/-- The description of an entry that was rolled. -/
structure Description where
  tableName : String
  tableId : String
  rolledValue : String
  description : String
  /-- How many levels were open. -/
  depth : Nat
  deriving DecidableEq, Repr

def Description.toJson (d : Description) : Json :=
  .obj [("tableName", .str d.tableName), ("tableId", .str d.tableId),
    ("rolledValue", .str d.rolledValue), ("description", .str d.description),
    ("depth", .int d.depth)]

/-- All that changes during an evaluation. -/
structure Context where
  /-- How many levels are open. -/
  depth : Nat := 0
  /-- The labels of the open levels, the innermost first. -/
  chain : List String := []
  /-- The rolls that are going on, the innermost first. -/
  frames : List Frame := []
  /-- The sets under evaluation. -/
  guards : List String := []
  shared : SharedStore := {}
  captures : Assoc Captured := []
  /-- What rolls published, by table. -/
  placeholders : Assoc (Assoc Content) := []
  /-- The texts of named instances. -/
  instances : Assoc String := []
  /-- In the order of their records. -/
  descriptions : List Description := []
  trace : OpenTrace := .start false ""
  source : Source := .ofDraws []
  resolved : ResolvedTables := []
  /-- The log records, the latest first. -/
  log : List LogRecord := []

namespace Context

/-- Opens a level, if the limit allows one more. -/
def enterLevel (limit : Nat) (label : String) (c : Context) : Except DepthFailure Context :=
  let depth := c.depth + 1
  let chain := label :: c.chain
  if limit < depth then .error ⟨.recursion, limit, chain.reverse⟩ else .ok { c with depth, chain }

/-- Closes the innermost level. -/
def ascend (c : Context) : Context := { c with depth := c.depth - 1, chain := c.chain.drop 1 }

def record (level : LogLevel) (logger : Logger) (message : String) (c : Context) : Context :=
  { c with log := ⟨level, logger, message⟩ :: c.log }

/-! ## Placeholders and captures -/

/-- Publishes sets under a name, over those published before. -/
def publish (name : String) (sets : Assoc Content) (c : Context) : Context :=
  let before := (c.placeholders.get? name).getD []
  { c with placeholders := c.placeholders.put name (before.putAll sets) }

/-- The published value of a property; without a property that of the value. -/
def placeholder? (c : Context) (name : String) (property : Option String) : Option String :=
  let property := (property.filter fun p => !p.isEmpty).getD "value"
  ((c.placeholders.get? name).bind fun sets => sets.get? property).map (·.value)

/-- Keeps items under a name, in place of earlier ones. -/
def capture (name : String) (items : Captured) (c : Context) : Context :=
  let c :=
    if c.captures.has name then
      c.record .warning .context ("Capture variable '$" ++ name ++ "' overwritten")
    else c
  { c with captures := c.captures.put name items }

/-! ## Descriptions -/

def describe (tableName tableId rolledValue description : String) (c : Context) : Context :=
  { c with descriptions :=
      c.descriptions ++ [⟨tableName, tableId, rolledValue, description, c.depth⟩] }

/-- The descriptions, those of outer levels first. -/
def descriptionsInOrder (c : Context) : List Description :=
  c.descriptions.mergeSort fun a b => a.depth ≤ b.depth

end Context

end RandomTables
