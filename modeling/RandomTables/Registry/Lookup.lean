-- SUMMARY: Finding tables and templates by references of dotted names.
import RandomTables.Registry.Basic
import RandomTables.Text.Basic

/-!
# Looking references up

A reference is an id of the collection itself, an alias and a reference in the collection that the
alias means, or a namespace and an id. Templates come before tables of the same id. The alias is
shorter than the reference, so following aliases ends even if imports go round in circles.
-/
namespace RandomTables

/-- A table or a template. -/
inductive Definition where
  | table (t : Table)
  | template (t : Template)

namespace Definition

def id : Definition → String
  | .table t => t.id
  | .template t => t.id

def sort : Definition → String
  | .table _ => "table"
  | .template _ => "template"

end Definition

/-- A definition and the collection that holds it. -/
structure Target where
  definition : Definition
  collectionId : String

namespace Collection

def template? (c : Collection) (id : String) : Option Template :=
  c.document.templates.find? fun t => t.id = id

def table? (c : Collection) (id : String) : Option Table :=
  c.document.tables.find? fun t => t.id = id

/-- The definition with an id. -/
def find? (c : Collection) (id : String) : Option Target :=
  match c.template? id with
  | some t => some ⟨.template t, c.id⟩
  | none => (c.table? id).map fun t => ⟨.table t, c.id⟩

end Collection

namespace Registry

/-- The id of the collection that an alias means: what it is wired to, or the first other collection
with the namespace or id that its path names. -/
def aliasedId (r : Registry) (c : Collection) (importAlias : String) : Option String :=
  (c.wired.get? importAlias).or
    ((c.document.imports.filter fun i => i.importAlias = importAlias).findSome? fun i =>
      (r.collections.find? fun other =>
        other.id != c.id && (other.namespaceText = i.path || other.id = i.path)).map (·.id))

/-- The parts of a reference. -/
def refParts (ref : String) : List String := (Text.splitAtChar '.' ref.toList).map String.ofList

def joinParts (parts : List String) : String := String.intercalate "." parts

/-- The definition that a reference means if its first parts are a namespace; the longest namespace
that helps counts. -/
def findQualified (r : Registry) (parts : List String) : Nat → Option Target
  | 0 => none
  | size + 1 =>
    match (r.withNamespace? (joinParts (parts.take (size + 1)))).bind fun c =>
        c.find? (joinParts (parts.drop (size + 1))) with
    | some found => some found
    | none => findQualified r parts size

/-- The definition that the parts of a reference mean in a collection. -/
def findParts (r : Registry) : List String → String → Except ResolutionFailure (Option Target)
  | [], collectionId => do
    let c ← r.loaded collectionId
    return c.find? ""
  | [id], collectionId => do
    let c ← r.loaded collectionId
    return c.find? id
  | importAlias :: part :: rest, collectionId => do
    let c ← r.loaded collectionId
    let parts := importAlias :: part :: rest
    match c.find? (joinParts parts) with
    | some found => return some found
    | none =>
      let byAlias ← match r.aliasedId c importAlias with
        | some target => r.findParts (part :: rest) target
        | none => pure none
      match byAlias with
      | some found => return some found
      | none => return r.findQualified parts (rest.length + 1)

/-- The definition that a reference means in a collection. -/
def find (r : Registry) (ref collectionId : String) :
    Except ResolutionFailure (Option Target) :=
  r.findParts (refParts ref) collectionId

/-- The definition that a reference means, which has to exist. -/
def resolve (r : Registry) (ref collectionId : String) : Except ResolutionFailure Target := do
  match ← r.find ref collectionId with
  | some found => return found
  | none => throw (.unknownReference ref collectionId)

/-- The collection that an alias of a collection means. -/
def aliased (r : Registry) (c : Collection) (importAlias : String) :
    Option Collection :=
  ((r.aliasedId c importAlias).filter fun id => !id.isEmpty).bind r.get?

/-- A static variable of the collection that an alias means. -/
def aliasedStatic (r : Registry) (importAlias name collectionId : String) :
    Except ResolutionFailure (Option String) := do
  let c ← r.loaded collectionId
  return (r.aliased c importAlias).bind fun target => target.document.statics.get? name

end Registry

end RandomTables
