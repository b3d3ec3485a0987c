-- SUMMARY: Listings of collections, tables and templates, also of those reached through imports.
import RandomTables.Engine.Basic

/-!
# Listings

A listing describes what is loaded without evaluating anything. What a collection reaches through
imports is listed under the aliases that lead there, which is how patterns refer to it.
-/
namespace RandomTables

structure CollectionSummary where
  id : String
  name : String
  namespaceText : String
  version : String
  tableCount : Nat
  templateCount : Nat
  sourcePath : Option String

structure TableSummary where
  id : String
  name : String
  sort : String
  collectionId : String
  description : Option String
  resultType : Option String
  hidden : Bool
  /-- The number of entries that the table itself lists. -/
  entryCount : Nat
  tags : List String

structure TemplateSummary where
  id : String
  name : String
  collectionId : String
  description : Option String
  resultType : Option String
  tags : List String

/-- Something reached through imports. -/
structure Imported (α : Type) where
  /-- The aliases that lead to the collection. -/
  aliasPath : String
  /-- The reference under which it is reached. -/
  fullId : String
  item : α

def CollectionSummary.ofCollection (c : Collection) : CollectionSummary where
  id := c.id
  name := c.name
  namespaceText := c.namespaceText
  version := c.document.metadata.version
  tableCount := c.document.tables.length
  templateCount := c.document.templates.length
  sourcePath := c.sourcePath

def TableSummary.ofTable (collectionId : String) (t : Table) : TableSummary where
  id := t.id
  name := shownName t.header.name t.id
  sort := t.sort
  collectionId
  description := t.header.description
  resultType := t.header.resultType
  hidden := t.header.hidden
  entryCount := match t with
    | .simple t => t.entries.length
    | _ => 0
  tags := t.header.tags

def TemplateSummary.ofTemplate (collectionId : String) (t : Template) : TemplateSummary where
  id := t.id
  name := shownName t.name t.id
  collectionId
  description := t.description
  resultType := t.resultType
  tags := t.tags

namespace Collection

/-- The tables of a collection, the hidden ones only if asked for. -/
def tableInfos (c : Collection) (withHidden : Bool) : List TableSummary :=
  (c.document.tables.filter fun t => withHidden || !t.header.hidden).map (TableSummary.ofTable c.id)

def templateInfos (c : Collection) : List TemplateSummary :=
  c.document.templates.map (TemplateSummary.ofTemplate c.id)

end Collection

namespace Registry

def collectionInfos (r : Registry) : List CollectionSummary :=
  r.collections.map CollectionSummary.ofCollection

/-- What the collections reached through imports list, with the ids of the items. -/
def importedItems {α : Type} (r : Registry) (id : α → String) (list : Collection → List α)
    (c : Collection) : List (Imported α) :=
  (r.reachedInDepth c).flatMap fun (path, target) =>
    let aliasPath := joinParts path
    (list target).map fun item => ⟨aliasPath, aliasPath ++ "." ++ id item, item⟩

/-- The tables reached through imports, without the hidden ones. -/
def importedTables (r : Registry) (c : Collection) : List (Imported TableSummary) :=
  r.importedItems TableSummary.id (·.tableInfos false) c

/-- The templates reached through imports. -/
def importedTemplates (r : Registry) (c : Collection) : List (Imported TemplateSummary) :=
  r.importedItems TemplateSummary.id Collection.templateInfos c

end Registry

end RandomTables
