-- SUMMARY: Engines: loading and unloading collections, wiring their imports, and looking tables up.
import RandomTables.Document.Load
import RandomTables.Export.Bundle
import RandomTables.Registry.Inheritance

/-!
# Engines

An engine holds the loaded collections and the tables resolved so far. Whatever it is asked, it
replies with a result, the engine afterwards, and the log records of the work. A request to load
that fails leaves the engine as it was.
-/
namespace RandomTables

structure Engine where
  config : Config := {}
  registry : Registry := {}
  /-- The tables resolved since collections were last loaded or unloaded. -/
  resolved : ResolvedTables := []

/-- What an engine replies. -/
structure Reply (α : Type) where
  result : α
  engine : Engine
  /-- In the order in which they were emitted. -/
  records : List LogRecord := []

namespace Engine

/-! ## Loading -/

/-- The record of a loaded document. -/
def loadedRecord (id : String) (d : Document) : LogRecord :=
  ⟨.info, .engine, "Loaded collection '" ++ id ++ "' (" ++ d.metadata.namespaceText ++ "): " ++
    toString d.tables.length ++ " tables, " ++ toString d.templates.length ++ " templates"⟩

/-- The record of a collection that another document replaces. -/
def replacedRecords (e : Engine) (id : String) : List LogRecord :=
  if e.registry.has id then
    [⟨.warning, .resolver, "Replacing already loaded collection '" ++ id ++ "'"⟩]
  else []

/-- Adds a sound document under an id. Tables resolved before are forgotten. -/
def add (e : Engine) (id : String) (d : Document) (sourcePath : Option String) :
    Reply (Except Failure Document) :=
  match e.registry.add id d sourcePath with
  | .error error => ⟨.error (.document error), e, []⟩
  | .ok registry =>
    ⟨.ok d, { e with registry, resolved := [] }, e.replacedRecords id ++ [loadedRecord id d]⟩

/-- Adds a document unless it was refused; the records of reading it come first. -/
def addChecked (e : Engine) (id : String) (sourcePath : Option String)
    (checked : Except Failure Document) (records : List LogRecord) :
    Reply (Except Failure Document) :=
  match checked with
  | .error error => ⟨.error error, e, records⟩
  | .ok d =>
    let reply := e.add id d sourcePath
    { reply with records := records ++ reply.records }

/-- Loads a collection from a draft of its document. -/
def load (e : Engine) (id : String) (draft : Draft) (sourcePath : Option String) :
    Reply (Except Failure Document) :=
  let (checked, records) := Document.load draft
  e.addChecked id sourcePath checked records

/-- The records of the warnings on a document that is loaded under an id. -/
def warningRecords (id : String) (d : Document) : List LogRecord :=
  (d.findings.filter (!·.isError)).map fun f => ⟨.warning, .engine, id ++ ": " ++ f.text⟩

/-- Loads a collection from its document. -/
def loadDocument (e : Engine) (id : String) (d : Document) (sourcePath : Option String) :
    Reply (Except Failure Document) :=
  e.addChecked id sourcePath d.ensureSound (warningRecords id d)

/-- Loads a collection from a draft; an error is logged. -/
def tryLoad (e : Engine) (id : String) (draft : Draft) (sourcePath : Option String) :
    Reply (Except Failure Document) :=
  let reply := match Document.ofDraft draft with
    | .ok d => e.loadDocument id d sourcePath
    | .error error => ⟨.error error, e, []⟩
  match reply.result with
  | .error (.error error) =>
    { reply with records := reply.records ++ [⟨.warning, .engine,
        "Failed to load collection '" ++ id ++ "': " ++ error.message⟩] }
  | _ => reply

/-- Unloads a collection, if it is loaded. -/
def unload (e : Engine) (id : String) : Reply Bool :=
  if e.registry.has id then
    ⟨true, { e with registry := e.registry.remove id, resolved := [] },
      [⟨.info, .engine, "Unloaded collection '" ++ id ++ "'"⟩]⟩
  else ⟨false, e, []⟩

/-- Wires all imports anew, preferring the ids that a map gives for paths. The result lists the
paths that lead nowhere, by collection. -/
def wireImports (e : Engine) (paths : Assoc String) : Reply (Assoc (List String)) :=
  let unresolved := e.registry.unresolved paths
  { result := unresolved
    engine := { e with registry := e.registry.wireAll paths }
    records := e.registry.collections.flatMap (e.registry.wireRecords paths) ++
      unresolved.map fun (id, missing) =>
        ⟨.warning, .engine, "Unresolved imports in '" ++ id ++ "': " ++
          String.intercalate ", " missing⟩ }

/-! ## Resolved tables -/

/-- Runs a computation that resolves tables. -/
def resolving {α : Type} (e : Engine) (x : Resolve α) : Reply (Except Failure α) :=
  let (result, s) := x.run ⟨e.resolved, []⟩
  ⟨result, { e with resolved := s.tables }, s.log.reverse⟩

/-- A simple table with everything it inherits. -/
def inherit (e : Engine) (t : SimpleTable) (collectionId : String) :
    Reply (Except Failure SimpleTable) :=
  e.resolving (e.registry.inherit e.config t collectionId)

/-- The members of a collection table, each with its collection. -/
def members (e : Engine) (t : CollectionTable) (collectionId : String) :
    Reply (Except Failure (List (SimpleTable × String))) :=
  e.resolving (e.registry.members e.config t collectionId t.members)

/-! ## Export -/

/-- The bundle of a loaded collection. -/
def bundle (e : Engine) (id : String) : Reply (Except ResolutionFailure Export.Bundle) :=
  match e.registry.loaded id with
  | .error error => ⟨.error error, e, []⟩
  | .ok c =>
    let bundle := Export.Bundle.ofCollection e.registry c
    ⟨.ok bundle, e, bundle.records⟩

end Engine

end RandomTables
