-- SUMMARY: The loaded collections: adding and removing them, and wiring their imports.
import RandomTables.Config
import RandomTables.Document.Basic
import RandomTables.Error
import RandomTables.Log

/-!
# The registry

A collection is a document loaded under an id. Collections keep the order in which their ids were
first loaded, and no two of them have the same namespace. Imports are wired to the ids of other
loaded collections; removing a collection cuts the wires to it.
-/
namespace RandomTables

/-- A document under an id. -/
structure Collection where
  id : String
  document : Document
  sourcePath : Option String := none
  /-- The ids that import aliases are wired to. -/
  wired : Assoc String := []

namespace Collection

def namespaceText (c : Collection) : String := c.document.metadata.namespaceText

def name (c : Collection) : String := c.document.metadata.name

end Collection

structure Registry where
  collections : List Collection := []

namespace Registry

def get? (r : Registry) (id : String) : Option Collection :=
  r.collections.find? fun c => c.id = id

def has (r : Registry) (id : String) : Bool := (r.get? id).isSome

def ids (r : Registry) : List String := r.collections.map (·.id)

/-- A collection that has to be loaded. -/
def loaded (r : Registry) (id : String) : Except ResolutionFailure Collection :=
  match r.get? id with
  | some c => .ok c
  | none => .error (.unknownCollection id)

/-- The first collection with a namespace. -/
def withNamespace? (r : Registry) (name : String) : Option Collection :=
  r.collections.find? fun c => c.namespaceText = name

/-! ## Loading -/

/-- A collection in place of the one with its id, or at the end. -/
def place (c : Collection) : List Collection → List Collection
  | [] => [c]
  | other :: rest => if other.id = c.id then c :: rest else other :: place c rest

/-- Another collection with the namespace of a document. -/
def conflict? (r : Registry) (id : String) (d : Document) : Option Collection :=
  r.collections.find? fun c => c.id != id && c.namespaceText = d.metadata.namespaceText

/-- Loads a document under an id. -/
def add (r : Registry) (id : String) (d : Document) (sourcePath : Option String) :
    Except DocumentFailure Registry :=
  match r.conflict? id d with
  | some other => .error (.namespaceTaken d.metadata.namespaceText other.id)
  | none => .ok { r with collections := place { id, document := d, sourcePath } r.collections }

/-- The wires that do not lead to a collection. -/
def wiresWithout (id : String) (wired : Assoc String) : Assoc String :=
  wired.filter fun (_, target) => target != id

/-- Removes a collection and all wires to it. -/
def remove (r : Registry) (id : String) : Registry :=
  { r with collections := (r.collections.filter fun c => c.id != id).map fun c =>
      { c with wired := wiresWithout id c.wired } }

/-! ## Wiring imports -/

/-- The collection that an import path means: by the given map, by namespace, or by id. -/
def atPath (r : Registry) (paths : Assoc String) (path : String) :
    Option Collection :=
  (((paths.get? path).bind r.get?).or (r.withNamespace? path)).or (r.get? path)

/-- What an import of a collection is wired to: never the collection itself. -/
def wireTarget (r : Registry) (paths : Assoc String) (owner : String) (i : Import) :
    Option Collection :=
  (r.atPath paths i.path).filter fun target => target.id != owner

/-- The wires of a collection and the imports that lead nowhere. -/
def wire (r : Registry) (paths : Assoc String) (c : Collection) :
    Assoc String × List Import :=
  c.document.imports.foldl
    (fun (wired, missing) i =>
      match r.wireTarget paths c.id i with
      | some target => (wired.put i.importAlias target.id, missing)
      | none => (wired, missing ++ [i]))
    ([], [])

/-- The records of wiring the imports of a collection. -/
def wireRecords (r : Registry) (paths : Assoc String) (c : Collection) : List LogRecord :=
  c.document.imports.filterMap fun i =>
    (r.wireTarget paths c.id i).map fun target =>
      ⟨.info, .engine,
        "Import '" ++ i.importAlias ++ "' of '" ++ c.id ++ "' -> '" ++ target.id ++ "'"⟩

/-- The paths of imports that lead nowhere, by collection. -/
def unresolved (r : Registry) (paths : Assoc String) : Assoc (List String) :=
  r.collections.filterMap fun c =>
    match (r.wire paths c).2 with
    | [] => none
    | missing => some (c.id, missing.map (·.path))

/-- Wires every import alias of every collection. -/
def wireAll (r : Registry) (paths : Assoc String) : Registry :=
  { r with collections := r.collections.map fun c => { c with wired := (r.wire paths c).1 } }

end Registry

end RandomTables
