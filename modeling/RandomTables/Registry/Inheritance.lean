-- SUMMARY: Simple tables with everything they inherit, and the members of collection tables.
import RandomTables.Document.Inheritance
import RandomTables.Registry.Lookup

/-!
# Resolved tables

A table is resolved by resolving the table it extends, if any, and laying it over that. Resolved
tables are remembered by collection and id. A chain of tables may be as long as the limit of each
collection on its way allows.
-/
namespace RandomTables

/-- Resolved tables by collection and id. -/
abbrev ResolvedTables := List ((String × String) × SimpleTable)

/-- What resolving tables leaves behind. -/
structure Resolving where
  tables : ResolvedTables
  /-- The records, the latest first. -/
  log : List LogRecord := []

/-- A computation that resolves tables. -/
abbrev Resolve := ExceptT Failure (StateM Resolving)

namespace Resolve

def lift {α : Type} : Except ResolutionFailure α → Resolve α
  | .ok a => pure a
  | .error e => throw (.resolution e)

/-- Remembers a resolved table. -/
def remember (collectionId : String) (t : SimpleTable) : Resolve Unit :=
  modify fun s => { s with tables := ((collectionId, t.id), t) :: s.tables }

def log (level : LogLevel) (message : String) : Resolve Unit :=
  modify fun s => { s with log := ⟨level, .resolver, message⟩ :: s.log }

end Resolve

namespace Registry

/-- How many tables in a row a table of a collection may extend. -/
def extensionLimit (r : Registry) (config : Config) (collectionId : String) : Nat :=
  match r.get? collectionId with
  | some c => (config.within c.document.metadata).maxInheritanceDepth
  | none => config.maxInheritanceDepth

/-- The greatest limit of all collections. -/
def greatestLimit (r : Registry) (config : Config) : Nat :=
  (r.collections.map fun c => r.extensionLimit config c.id).foldl max config.maxInheritanceDepth

/-- Resolves a table that `depth` other ones extend, whose ids are the chain. -/
def inheritFrom (r : Registry) (config : Config) :
    Nat → SimpleTable → String → Nat → List String → Resolve SimpleTable
  | 0, _, _, _, _ => throw .outOfFuel
  | fuel + 1, t, collectionId, depth, chain => do
    match (← get).tables.lookup (collectionId, t.id) with
    | some resolved => return resolved
    | none =>
      let chain := chain ++ [t.id]
      let parentRef := t.parent.getD ""
      if parentRef.isEmpty then
        let resolved := t.identified
        Resolve.remember collectionId resolved
        return resolved
      else
        let limit := r.extensionLimit config collectionId
        if limit ≤ depth then
          throw (.error (.depth ⟨.inheritance, limit, chain ++ [parentRef]⟩))
        match ← Resolve.lift (r.find parentRef collectionId) with
        | some ⟨.table (.simple parent), parentCollection⟩ =>
          let parent ← inheritFrom r config fuel parent parentCollection (depth + 1) chain
          let resolved := t.laidOver parent
          Resolve.remember collectionId resolved
          Resolve.log .debug ("Resolved inheritance " ++ String.intercalate " -> " chain ++ " ("
            ++ toString resolved.entries.length ++ " entries)")
          return resolved
        | some ⟨.table other, _⟩ => throw (.resolution (.parentNotSimple parentRef other.sort))
        | _ => throw (.resolution (.unknownParent parentRef t.id))

/-- A simple table with everything it inherits. -/
def inherit (r : Registry) (config : Config) (t : SimpleTable) (collectionId : String) :
    Resolve SimpleTable :=
  r.inheritFrom config (r.greatestLimit config + 2) t collectionId 0 []

/-- The members of a collection table, resolved, each with its collection. -/
def members (r : Registry) (config : Config) (t : CollectionTable) (collectionId : String) :
    List String → Resolve (List (SimpleTable × String))
  | [] => pure []
  | member :: rest => do
    let found ← Resolve.lift (r.resolve member collectionId)
    match found.definition with
    | .table (.simple table) =>
      let resolved ← r.inherit config table found.collectionId
      let more ← r.members config t collectionId rest
      return (resolved, found.collectionId) :: more
    | _ => throw (.resolution (.memberNotSimple t.id member))

end Registry

end RandomTables
