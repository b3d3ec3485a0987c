-- SUMMARY: Documents and their parts as JSON.
import RandomTables.Document.Basic
import RandomTables.Json.Basic
import RandomTables.Text.Surrogate

/-!
# Writing documents

Each part is written as an object with all its fields, absent values as null. A document is written
without the nulls.
-/
namespace RandomTables

namespace Json

mutual

/-- A value whose objects have no fields that are null. -/
def withoutNulls : Json → Json
  | .arr items => .arr (withoutNullsAll items)
  | .obj fields => .obj (withoutNullsFields fields)
  | j => j

def withoutNullsAll : List Json → List Json
  | [] => []
  | item :: rest => withoutNulls item :: withoutNullsAll rest

def withoutNullsFields : List (String × Json) → List (String × Json)
  | [] => []
  | (_, .null) :: rest => withoutNullsFields rest
  | (key, value) :: rest => (key, withoutNulls value) :: withoutNullsFields rest

end

/-- A value, or null. -/
def orNull {α : Type} (write : α → Json) : Option α → Json
  | some a => write a
  | none => .null

def ofNat (n : Nat) : Json := .int n

/-- Texts under keys. The keys are written without surrogates; of those that become equal the last
one counts. -/
def textsJson (texts : Assoc String) : Json :=
  .obj (Assoc.ofPairs (texts.map fun (key, text) => (Text.withoutSurrogates key, .str text)))

end Json

open Json

def Metadata.toJson (m : Metadata) : Json :=
  .obj [("name", .str m.name), ("namespace", .str m.namespaceText), ("version", .str m.version),
    ("specVersion", ofOption m.specVersion), ("description", ofOption m.description),
    ("author", ofOption m.author), ("maxRecursionDepth", orNull ofNat m.maxRecursionDepth),
    ("maxExplodingDice", orNull ofNat m.maxExplodingDice),
    ("maxInheritanceDepth", orNull ofNat m.maxInheritanceDepth),
    ("uniqueOverflowBehavior", ofOption (m.uniqueOverflow.map Overflow.name))]

def Import.toJson (i : Import) : Json :=
  .obj [("path", .str i.path), ("alias", .str i.importAlias),
    ("description", ofOption i.description)]

def Page.toJson : Page → Json
  | .number n => .int n
  | .text s => .str s

def Attribution.toJson (a : Attribution) : Json :=
  .obj [("book", ofOption a.book), ("page", orNull Page.toJson a.page), ("url", ofOption a.url),
    ("license", ofOption a.license)]

def RollRange.toJson (r : RollRange) : Json := ofInts [r.first, r.last]

def Entry.toJson (e : Entry) : Json :=
  .obj [("value", ofOption e.value), ("weight", orNull .float e.weight),
    ("range", orNull RollRange.toJson e.range), ("id", ofOption e.id),
    ("description", ofOption e.description), ("resultType", ofOption e.resultType),
    ("sets", textsJson e.sets), ("assets", textsJson e.assets), ("tags", ofList e.tags)]

def TableHeader.fields (h : TableHeader) : List (String × Json) :=
  [("id", .str h.id), ("name", .str h.name), ("description", ofOption h.description),
    ("resultType", ofOption h.resultType), ("hidden", .bool h.hidden),
    ("shared", orNull textsJson h.shared), ("defaultSets", orNull textsJson h.defaultSets),
    ("source", orNull Attribution.toJson h.source), ("tags", ofList h.tags)]

def SimpleTable.toJson (t : SimpleTable) : Json :=
  .obj (t.toTableHeader.fields ++ [("type", .str "simple"),
    ("entries", .arr (t.entries.map Entry.toJson)), ("extends", ofOption t.parent)])

def TableSource.toJson (s : TableSource) : Json :=
  .obj [("tableId", .str s.tableId), ("weight", orNull .float s.weight)]

def CompositeTable.toJson (t : CompositeTable) : Json :=
  .obj (t.toTableHeader.fields ++ [("type", .str "composite"),
    ("sources", .arr (t.sources.map TableSource.toJson))])

def CollectionTable.toJson (t : CollectionTable) : Json :=
  .obj (t.toTableHeader.fields ++ [("type", .str "collection"),
    ("collections", ofList t.members)])

def Table.toJson : Table → Json
  | .simple t => t.toJson
  | .composite t => t.toJson
  | .collection t => t.toJson

def Template.toJson (t : Template) : Json :=
  .obj [("id", .str t.id), ("name", .str t.name), ("pattern", .str t.pattern),
    ("description", ofOption t.description), ("resultType", ofOption t.resultType),
    ("shared", orNull textsJson t.shared), ("tags", ofList t.tags)]

def Conditional.toJson (c : Conditional) : Json :=
  .obj [("when", .str c.condition), ("action", .str c.action.name),
    ("target", ofOption c.target), ("value", .str c.value)]

/-- A document without the values that it leaves out. -/
def Document.toJson (d : Document) : Json :=
  withoutNulls (.obj [("metadata", d.metadata.toJson),
    ("imports", .arr (d.imports.map Import.toJson)), ("tables", .arr (d.tables.map Table.toJson)),
    ("templates", .arr (d.templates.map Template.toJson)), ("variables", textsJson d.statics),
    ("shared", textsJson d.shared), ("conditionals", .arr (d.conditionals.map Conditional.toJson))])

end RandomTables
