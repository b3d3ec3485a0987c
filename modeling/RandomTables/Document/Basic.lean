-- SUMMARY: Documents: metadata, imports, tables, templates, variables and conditionals.
import RandomTables.Assoc

/-!
# Documents

A document holds tables and templates under a namespace, imports of other documents, variables, and
conditionals for afterwards. A simple table lists entries and may extend another table; a composite
table chooses one of its sources; a collection table pools the entries of its members.
-/
namespace RandomTables

/-- What becomes of a draw of unique entries that finds no more of them. -/
inductive Overflow where
  | stop | cycle | error
  deriving DecidableEq, Repr

def Overflow.name : Overflow → String
  | .stop => "stop"
  | .cycle => "cycle"
  | .error => "error"

structure Metadata where
  name : String
  /-- The text under which other documents refer to this one. -/
  namespaceText : String
  version : String := "1.0.0"
  specVersion : Option String := none
  description : Option String := none
  author : Option String := none
  maxRecursionDepth : Option Nat := none
  maxExplodingDice : Option Nat := none
  maxInheritanceDepth : Option Nat := none
  uniqueOverflow : Option Overflow := none

/-- Another document, by namespace or id, under a local alias. -/
structure Import where
  path : String
  importAlias : String
  description : Option String := none

/-- A page by number or as text. -/
inductive Page where
  | number (n : Int)
  | text (s : String)

/-- The publication that a table was taken from. -/
structure Attribution where
  book : Option String := none
  page : Option Page := none
  url : Option String := none
  license : Option String := none

/-! ## Entries -/

/-- The fields of an entry. -/
inductive EntryField where
  | value | weight | range | id | description | resultType | sets | assets | tags
  deriving DecidableEq, Repr

/-- The rolls from the first number up to the second. -/
structure RollRange where
  first : Int
  last : Int
  deriving DecidableEq, Repr

/-- Whether a roll lies in a range. -/
def RollRange.covers (r : RollRange) (roll : Int) : Bool := r.first ≤ roll && roll ≤ r.last

/-- How many rolls lie in a range whose first roll is not after its last. -/
def RollRange.size (r : RollRange) : Int := r.last - r.first + 1

/-- One row of a simple table. -/
structure Entry where
  value : Option String := none
  weight : Option Float := none
  range : Option RollRange := none
  id : Option String := none
  description : Option String := none
  resultType : Option String := none
  sets : Assoc String := []
  assets : Assoc String := []
  tags : List String := []
  /-- The fields that were given explicitly, be it as null. -/
  given : List EntryField := []

namespace Entry

/-- The id of an entry, empty if it has none. -/
def idText (e : Entry) : String := e.id.getD ""

/-- Whether a field was given explicitly. -/
def gives (e : Entry) (f : EntryField) : Bool := e.given.contains f

end Entry

/-! ## Tables -/

/-- What tables of every sort have. -/
structure TableHeader where
  id : String
  name : String := ""
  description : Option String := none
  resultType : Option String := none
  hidden : Bool := false
  shared : Option (Assoc String) := none
  defaultSets : Option (Assoc String) := none
  source : Option Attribution := none
  tags : List String := []

structure SimpleTable extends TableHeader where
  entries : List Entry := []
  /-- The reference to the table that this one extends. -/
  parent : Option String := none

/-- A table that a composite table may roll, with its weight. -/
structure TableSource where
  tableId : String
  weight : Option Float := none

structure CompositeTable extends TableHeader where
  sources : List TableSource

structure CollectionTable extends TableHeader where
  /-- References to the pooled tables. -/
  members : List String

inductive Table where
  | simple (t : SimpleTable)
  | composite (t : CompositeTable)
  | collection (t : CollectionTable)

/-- Whether a table is in range mode: a roll decides by the ranges of the entries. -/
def SimpleTable.inRangeMode (t : SimpleTable) : Bool := t.entries.any (·.range.isSome)

namespace Table

def header : Table → TableHeader
  | .simple t => t.toTableHeader
  | .composite t => t.toTableHeader
  | .collection t => t.toTableHeader

/-- The name of a table's sort. -/
def sort : Table → String
  | .simple _ => "simple"
  | .composite _ => "composite"
  | .collection _ => "collection"

def id (t : Table) : String := t.header.id

def isSimple : Table → Bool
  | .simple _ => true
  | _ => false

end Table

/-- A pattern that can be referred to like a table. -/
structure Template where
  id : String
  name : String := ""
  pattern : String
  description : Option String := none
  resultType : Option String := none
  shared : Option (Assoc String) := none
  tags : List String := []

/-- A name, or the id in its place if it is empty. -/
def shownName (name id : String) : String := if name.isEmpty then id else name

/-! ## Documents -/

/-- What a conditional does to the text. -/
inductive ConditionalAction where
  | append | prepend | replace | setVariable
  deriving DecidableEq, Repr

def ConditionalAction.name : ConditionalAction → String
  | .append => "append"
  | .prepend => "prepend"
  | .replace => "replace"
  | .setVariable => "setVariable"

/-- A change of the text that is made if a condition holds after the evaluation. -/
structure Conditional where
  condition : String
  action : ConditionalAction
  target : Option String := none
  value : String := ""

structure Document where
  metadata : Metadata
  imports : List Import := []
  tables : List Table
  templates : List Template := []
  /-- The static variables. -/
  statics : Assoc String := []
  /-- The shared variables of the document in the order of their declarations. -/
  shared : Assoc String := []
  conditionals : List Conditional := []

end RandomTables
