-- SUMMARY: The rules of a document beyond its form: distinct ids, whole ranges, known references.
import RandomTables.Document.Basic
import RandomTables.Schema.Basic
import RandomTables.Text.Basic

/-!
# Integrity

A document of the right form may still contradict itself. Each rule lists the defects it finds with
their places; a document is sound if none of them is an error.
-/
namespace RandomTables

inductive Severity where
  | error | warning
  deriving DecidableEq, Repr

def Severity.name : Severity → String
  | .error => "error"
  | .warning => "warning"

/-- What can be wrong with a document of the right form. -/
inductive Defect where
  | repeatedAlias (importAlias : String)
  | repeatedTable (id : String)
  | repeatedTemplate (id : String)
  | hidesTable (id : String)
  | repeatedEntry (id : String)
  | extendsItself
  | noEntries
  | zeroWeights
  | missingRange
  | overlap (range before : RollRange)
  | gap (last first : Int)
  | noSources
  | listsItself
  | noMembers
  | notSimple (ref sort : String)
  | undeclaredAlias (ref : String)
  | unknownTable (ref : String)
  | shadowsStatic (name : String)
  deriving DecidableEq, Repr

namespace Defect

def severity : Defect → Severity
  | .hidesTable _ => .warning
  | .zeroWeights => .warning
  | .undeclaredAlias _ => .warning
  | _ => .error

def message : Defect → String
  | .repeatedAlias importAlias => "duplicate import alias '" ++ importAlias ++ "'"
  | .repeatedTable id => "duplicate table id '" ++ id ++ "'"
  | .repeatedTemplate id => "duplicate template id '" ++ id ++ "'"
  | .hidesTable id => "template '" ++ id ++ "' hides the table with the same id"
  | .repeatedEntry id => "duplicate entry id '" ++ id ++ "'"
  | .extendsItself => "table extends itself"
  | .noEntries => "simple table has no entries"
  | .zeroWeights => "every entry has weight 0"
  | .missingRange => "range tables need a range on every entry"
  | .overlap range before =>
    "range " ++ Schema.rangeText range ++ " overlaps range " ++ Schema.rangeText before
  | .gap last first => "gap between " ++ toString last ++ " and " ++ toString first
  | .noSources => "composite table has no sources"
  | .listsItself => "composite table lists itself"
  | .noMembers => "collection table has no member tables"
  | .notSimple ref sort => "'" ++ ref ++ "' is a " ++ sort ++ " table, expected a simple table"
  | .undeclaredAlias ref => "'" ++ ref ++ "' does not use a declared import alias"
  | .unknownTable ref => "unknown table '" ++ ref ++ "'"
  | .shadowsStatic name => "shared variable '" ++ name ++ "' shadows a static variable"

end Defect

/-- A defect at a place. -/
structure Finding where
  path : String
  defect : Defect
  deriving DecidableEq, Repr

namespace Finding

def isError (f : Finding) : Bool := f.defect.severity = .error

def text (f : Finding) : String := f.path ++ ": " ++ f.defect.message

end Finding

namespace Integrity

/-- A numbered place inside another one. -/
def numbered (place : String) (index : Nat) : String := place ++ "[" ++ toString index ++ "]"

/-- For each key, whether it occurred before. Absent keys never do. -/
def repeatsFrom (seen : List String) : List (Option String) → List Bool
  | [] => []
  | none :: rest => false :: repeatsFrom seen rest
  | some key :: rest => seen.contains key :: repeatsFrom (key :: seen) rest

def repeats (keys : List (Option String)) : List Bool := repeatsFrom [] keys

/-- The findings on some items, given for each its index and whether its key occurred before. -/
def findOn {α : Type} (items : List α) (key : α → Option String)
    (check : Nat → α → Bool → List Finding) : List Finding :=
  ((items.zip (repeats (items.map key))).zipIdx.map fun ((item, again), index) =>
    check index item again).flatten

/-! ## References -/

/-- The first table with an id. -/
def localTable (d : Document) (id : String) : Option Table := d.tables.find? fun t => t.id = id

/-- Whether the first part of a dotted reference is an alias of the document. -/
def usesAlias (d : Document) (ref : String) : Bool :=
  let first := String.ofList (Text.cutAtChar '.' ref.toList).1
  d.imports.any fun i => i.importAlias = first

/-- A reference without points has to be to a table of the document. Others may be to tables of
documents that are loaded later. -/
def referenceFindings (d : Document) (path ref : String) (simple : Bool) : List Finding :=
  match localTable d ref with
  | some table =>
    if simple && !table.isSimple then [⟨path, .notSimple ref table.sort⟩] else []
  | none =>
    if ref.toList.contains '.' then
      if usesAlias d ref then [] else [⟨path, .undeclaredAlias ref⟩]
    else [⟨path, .unknownTable ref⟩]

/-! ## Ranges -/

/-- The findings on neighbours in the order of their first rolls. -/
def neighboursFindings (path : String) : List (Nat × RollRange) → List Finding
  | (_, before) :: (index, range) :: rest =>
    let place := numbered (path ++ ".entries") index
    (if range.first ≤ before.last then [⟨place, .overlap range before⟩]
      else if before.last + 1 < range.first then [⟨place, .gap before.last range.first⟩]
      else []) ++ neighboursFindings path ((index, range) :: rest)
  | _ => []

/-- The ranges of some entries with the indices of the entries. -/
def rangesOf (entries : List Entry) : List (Nat × RollRange) :=
  entries.zipIdx.filterMap fun (e, index) => e.range.map fun r => (index, r)

/-- If one entry has a range, all have one, and together they leave nothing out and cover nothing
twice. -/
def rangesFindings (path : String) (entries : List Entry) : List Finding :=
  let ranges := rangesOf entries
  if ranges.length ≠ entries.length then [⟨path, .missingRange⟩]
  else neighboursFindings path (ranges.mergeSort fun a b => a.2.first ≤ b.2.first)

/-! ## Tables -/

def entryIdsFindings (path : String) (entries : List Entry) : List Finding :=
  findOn entries (fun e => if e.idText.isEmpty then none else e.id) fun index e again =>
    if again then [⟨numbered (path ++ ".entries") index, .repeatedEntry e.idText⟩] else []

/-- A simple table extends another one or has entries itself. -/
def parentFindings (d : Document) (path : String) (t : SimpleTable) : List Finding :=
  let parent := t.parent.getD ""
  if parent.isEmpty then
    if t.entries.isEmpty then [⟨path, .noEntries⟩] else []
  else if parent = t.id then [⟨path, .extendsItself⟩]
  else referenceFindings d (path ++ ".extends") parent true

/-- Whether an entry weighs nothing. -/
def weighsNothing (e : Entry) : Bool :=
  match e.weight with
  | some w => w == 0
  | none => false

def weightsFindings (path : String) (t : SimpleTable) : List Finding :=
  if t.inRangeMode then rangesFindings path t.entries
  else if !t.entries.isEmpty && t.entries.all weighsNothing then [⟨path, .zeroWeights⟩]
  else []

def simpleFindings (d : Document) (path : String) (t : SimpleTable) : List Finding :=
  entryIdsFindings path t.entries ++ parentFindings d path t ++ weightsFindings path t

def compositeFindings (d : Document) (path : String) (t : CompositeTable) : List Finding :=
  (if t.sources.isEmpty then [⟨path, .noSources⟩] else []) ++
    (t.sources.zipIdx.map fun (source, index) =>
      let place := numbered (path ++ ".sources") index
      if source.tableId = t.id then [⟨place, .listsItself⟩]
      else referenceFindings d place source.tableId false).flatten

def collectionFindings (d : Document) (path : String) (t : CollectionTable) : List Finding :=
  (if t.members.isEmpty then [⟨path, .noMembers⟩] else []) ++
    (t.members.zipIdx.map fun (member, index) =>
      referenceFindings d (numbered (path ++ ".collections") index) member true).flatten

def tableFindings (d : Document) (index : Nat) (table : Table) : List Finding :=
  let path := numbered "tables" index ++ "(" ++ table.id ++ ")"
  match table with
  | .simple t => simpleFindings d path t
  | .composite t => compositeFindings d path t
  | .collection t => collectionFindings d path t

/-! ## Documents -/

def importsFindings (d : Document) : List Finding :=
  findOn d.imports (fun i => some i.importAlias) fun index i again =>
    if again then [⟨numbered "imports" index, .repeatedAlias i.importAlias⟩] else []

def tableIdsFindings (d : Document) : List Finding :=
  findOn d.tables (fun t => some t.id) fun index t again =>
    if again then [⟨numbered "tables" index, .repeatedTable t.id⟩] else []

def templateIdsFindings (d : Document) : List Finding :=
  findOn d.templates (fun t => some t.id) fun index t again =>
    (if again then [⟨numbered "templates" index, .repeatedTemplate t.id⟩] else []) ++
      if (localTable d t.id).isSome then [⟨numbered "templates" index, .hidesTable t.id⟩] else []

/-- The name of a shared variable without the sign that makes it keep items. -/
def plainName (key : String) : String :=
  match key.toList with
  | '$' :: name => String.ofList name
  | _ => key

def sharedFindings (d : Document) : List Finding :=
  (d.shared.keys.map fun key =>
    let name := plainName key
    if d.statics.has name then [⟨"shared." ++ key, .shadowsStatic name⟩] else []).flatten

end Integrity

open Integrity in
/-- The defects of a document, in the order of its rules. -/
def Document.findings (d : Document) : List Finding :=
  importsFindings d ++ tableIdsFindings d ++ templateIdsFindings d ++
    (d.tables.zipIdx.map fun (t, index) => tableFindings d index t).flatten ++ sharedFindings d

end RandomTables
