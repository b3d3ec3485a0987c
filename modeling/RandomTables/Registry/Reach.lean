-- SUMMARY: The collections that a collection reaches through imports, in depth and in breadth.
import RandomTables.Number.Power
import RandomTables.Registry.Lookup

/-!
# Reachable collections

Imports are followed one at a time from a list of imports that remain. What an import leads to is
reached once, by the first import that leads there, and its own imports join those that remain: in
front of them for a search in depth, behind them for a search in breadth. Since every collection is
reached once, no more imports are followed than the registry has.
-/
namespace RandomTables

/-- An import that may be followed, and how it was come to. -/
structure Link where
  owner : Collection
  /-- The aliases that lead to the owner. -/
  path : List String
  item : Import

namespace Link

/-- The aliases that lead to what the import means. -/
def fullPath (l : Link) : List String := l.path ++ [l.item.importAlias]

/-- The imports of a collection that a path leads to. -/
def ofCollection (path : List String) (c : Collection) : List Link :=
  c.document.imports.map fun i => ⟨c, path, i⟩

end Link

namespace Registry

/-- Follows imports, given where each leads and how new ones join those that remain. The answer
lists what was reached, each with the aliases that lead there. -/
def follow (target : Link → Option Collection) (join : List Link → List Link → List Link) :
    Nat → List String → List Link → List (List String × Collection)
  | 0, _, _ => []
  | _ + 1, _, [] => []
  | fuel + 1, visited, link :: rest =>
    match (target link).filter fun c => !visited.contains c.id with
    | none => follow target join fuel visited rest
    | some c =>
      (link.fullPath, c) ::
        follow target join fuel (c.id :: visited) (join (Link.ofCollection link.fullPath c) rest)

/-- The number of all imports. -/
def importCount (r : Registry) : Nat :=
  Number.sumOf (fun c => c.document.imports.length) r.collections

/-- What a collection reaches when imports lead where a function says. -/
def reachedFrom (r : Registry) (target : Link → Option Collection)
    (join : List Link → List Link → List Link) (c : Collection) :
    List (List String × Collection) :=
  let links := Link.ofCollection [] c
  follow target join (r.importCount + links.length + 1) [c.id] links

/-- What a collection reaches through its aliases, searched in depth. -/
def reachedInDepth (r : Registry) (c : Collection) : List (List String × Collection) :=
  r.reachedFrom (fun l => r.aliased l.owner l.item.importAlias)
    (fun new rest => new ++ rest) c

/-- What an import means for an export: what its alias is wired to, or what its path means. -/
def exportTarget (r : Registry) (l : Link) : Option Collection :=
  ((l.owner.wired.get? l.item.importAlias).bind r.get?).or (r.atPath [] l.item.path)

/-- What a collection reaches for an export, searched in breadth. -/
def reachedInBreadth (r : Registry) (c : Collection) :
    List (List String × Collection) :=
  r.reachedFrom r.exportTarget (fun new rest => rest ++ new) c

end Registry

end RandomTables
