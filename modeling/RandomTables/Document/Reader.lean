-- SUMMARY: Reading the parts of documents from JSON, with every issue that stands in the way.
import RandomTables.Document.Basic
import RandomTables.Json.Writer
import RandomTables.Schema.Reading

/-!
# Reading documents

Each part has one reader, which reads the fields in the order in which issues are to be reported.
Two rules speak of several fields of an entry at once; they are asked when all fields were read.
-/
namespace RandomTables

open Schema

namespace Metadata

def namespaceName : Reader String := fun j =>
  (Schema.text j).checkedBy fun s =>
    if (Text.trim s.toList).isEmpty then some .blankNamespace else none

def read : Reader Metadata := object "Metadata" fun j =>
  Metadata.mk <$> field j "name" Schema.text
    <*> field j "namespace" namespaceName
    <*> fieldD j "version" "1.0.0" Schema.text
    <*> field? j "specVersion" Schema.text
    <*> field? j "description" Schema.text
    <*> field? j "author" Schema.text
    <*> field? j "maxRecursionDepth" (integerFrom 1)
    <*> field? j "maxExplodingDice" (integerFrom 0)
    <*> field? j "maxInheritanceDepth" (integerFrom 1)
    <*> field? j "uniqueOverflowBehavior" (choice [.stop, .cycle, .error] Overflow.name)

end Metadata

namespace Import

/-- An alias is the first part of a reference, so it cannot hold a point. -/
def aliasName : Reader String := fun j =>
  (Schema.text j).checkedBy fun s =>
    if s.isEmpty || s.toList.contains '.' then some (.aliasToken (Text.withoutSurrogates s))
    else none

def read : Reader Import := object "Import" fun j =>
  Import.mk <$> field j "path" Schema.text
    <*> field j "alias" aliasName
    <*> field? j "description" Schema.text

end Import

def Attribution.read : Reader Attribution := object "SourceAttribution" fun j =>
  Attribution.mk <$> field? j "book" Schema.text
    <*> field? j "page" Schema.page
    <*> field? j "url" Schema.text
    <*> field? j "license" Schema.text

/-! ## Entries -/

namespace EntryField

def all : List EntryField :=
  [value, weight, range, id, description, resultType, sets, assets, tags]

def name : EntryField → String
  | .value => "value"
  | .weight => "weight"
  | .range => "range"
  | .id => "id"
  | .description => "description"
  | .resultType => "resultType"
  | .sets => "sets"
  | .assets => "assets"
  | .tags => "tags"

/-- The other name of a field. -/
def otherName : EntryField → String
  | .range => "roll_range"
  | f => underscored f.name

end EntryField

namespace Entry

/-- An entry has a weight or a range, and a range begins before it ends. -/
def conflict (e : Entry) : Option Mismatch :=
  match e.weight, e.range with
  | some _, some _ => some .weightAndRange
  | none, some r => if r.last < r.first then some (.reversedRange r) else none
  | _, none => none

/-- The value of a field. -/
def fieldOf? (j : Json) (f : EntryField) : Option Json := valueOf j f.name f.otherName

def rangeField (j : Json) : Checked (Option RollRange) :=
  match fieldOf? j .range with
  | some value => (nullable Schema.range value).under "range"
  | none => .ok none

def read : Reader Entry := object "Entry" fun j =>
  let entry := Entry.mk <$> field? j "value" Schema.text
    <*> field? j "weight" Schema.weight
    <*> rangeField j
    <*> field? j "id" Schema.text
    <*> field? j "description" Schema.text
    <*> field? j "resultType" Schema.text
    <*> fieldD j "sets" [] texts
    <*> fieldD j "assets" [] texts
    <*> fieldD j "tags" [] (list Schema.text)
    <*> .ok (EntryField.all.filter fun f => (fieldOf? j f).isSome)
  entry.checkedBy conflict

end Entry

/-! ## Tables -/

def TableHeader.read (j : Json) : Checked TableHeader :=
  TableHeader.mk <$> field j "id" Schema.text
    <*> fieldD j "name" "" Schema.text
    <*> field? j "description" Schema.text
    <*> field? j "resultType" Schema.text
    <*> fieldD j "hidden" false boolean
    <*> field? j "shared" texts
    <*> field? j "defaultSets" texts
    <*> field? j "source" Attribution.read
    <*> fieldD j "tags" [] (list Schema.text)

/-- The type of a table, which has to be the one that it is read as. -/
def typeNamed (name : String) : Reader Unit := choice [()] fun _ => name

def SimpleTable.read : Reader SimpleTable := object "SimpleTable" fun j =>
  SimpleTable.mk <$> (TableHeader.read j <* fieldD j "type" () (typeNamed "simple"))
    <*> fieldD j "entries" [] (list Entry.read)
    <*> field? j "extends" Schema.text

def TableSource.read : Reader TableSource := object "CompositeSource" fun j =>
  TableSource.mk <$> field j "tableId" Schema.text
    <*> field? j "weight" Schema.weight

def CompositeTable.read : Reader CompositeTable := object "CompositeTable" fun j =>
  CompositeTable.mk <$> (TableHeader.read j <* field j "type" (typeNamed "composite"))
    <*> field j "sources" (list TableSource.read)

def CollectionTable.read : Reader CollectionTable := object "CollectionTable" fun j =>
  CollectionTable.mk <$> (TableHeader.read j <* field j "type" (typeNamed "collection"))
    <*> field j "collections" (list Schema.text)

namespace Table

/-- The tag of a table is its type. Without a type a table is a simple one. -/
def tagOf (j : Json) : Option String :=
  match j.get? "type" with
  | none => some "simple"
  | some .null => none
  | some value => some value.shown

/-- The tag decides what a table is read as. -/
def read : Reader Table := fun j =>
  match tagOf j with
  | none => .refuse .noTag
  | some tag =>
    if tag = "simple" then (Table.simple <$> SimpleTable.read j).under tag
    else if tag = "composite" then (Table.composite <$> CompositeTable.read j).under tag
    else if tag = "collection" then (Table.collection <$> CollectionTable.read j).under tag
    else .refuse (.unknownTag (Text.withoutSurrogates tag))

end Table

/-! ## Documents -/

def Template.read : Reader Template := object "Template" fun j =>
  Template.mk <$> field j "id" Schema.text
    <*> fieldD j "name" "" Schema.text
    <*> field j "pattern" Schema.text
    <*> field? j "description" Schema.text
    <*> field? j "resultType" Schema.text
    <*> field? j "shared" texts
    <*> fieldD j "tags" [] (list Schema.text)

def Conditional.read : Reader Conditional := object "Conditional" fun j =>
  Conditional.mk <$> field j "when" Schema.text
    <*> field j "action" (choice [.append, .prepend, .replace, .setVariable]
      ConditionalAction.name)
    <*> field? j "target" Schema.text
    <*> fieldD j "value" "" Schema.text

def Document.read : Reader Document := object "CollectionDocument" fun j =>
  Document.mk <$> field j "metadata" Metadata.read
    <*> fieldD j "imports" [] (list Import.read)
    <*> field j "tables" (list Table.read)
    <*> fieldD j "templates" [] (list Template.read)
    <*> fieldD j "variables" [] texts
    <*> fieldD j "shared" [] texts
    <*> fieldD j "conditionals" [] (list Conditional.read)

end RandomTables
