-- SUMMARY: Drawing entries from simple tables and pools, and sources from composite tables.
import RandomTables.Document.Basic
import RandomTables.Json.Basic
import RandomTables.Selection.Weight

/-!
# Selections

A table in range mode is drawn from by a roll between its lowest and highest number. Any other draw,
and every draw with exclusions, is in proportion to the weights of the entries that are left.
-/
namespace RandomTables

/-- A drawn entry and the numbers behind the draw. -/
structure Selection where
  entry : Entry
  tableId : String
  collectionId : String
  /-- What excludes the entry from later draws. -/
  key : String
  weight : Weight
  total : Weight
  poolSize : Nat
  /-- The roll that decided, if one did. -/
  roll : Option Int := none

namespace Selection

def probability (s : Selection) : Float :=
  if Measure.isPositive s.total then s.weight.toFloat / s.total.toFloat else 0

/-- The numbers of a draw. -/
def fields (s : Selection) : List (String × Json) :=
  [("tableId", .str s.tableId), ("entryId", .str s.entry.idText),
    ("selectedWeight", .float s.weight.toFloat), ("totalWeight", .float s.total.toFloat),
    ("probability", .float s.probability), ("poolSize", .int s.poolSize)] ++
    (match s.roll with
      | some roll => [("roll", .int roll)]
      | none => [])

end Selection

/-- The weight of an entry: as many points as its range covers, or its own, or one. -/
def Entry.points (e : Entry) : Except Failure Weight :=
  match e.range with
  | some r => Weight.ofInt r.size
  | none =>
    match e.weight with
    | some w => .ok (.ofFloat w)
    | none => .ok .one

/-- The weight of a source of a composite table. -/
def TableSource.points (s : TableSource) : Weight :=
  match s.weight with
  | some w => .ofFloat w
  | none => .one

/-- An entry that can be drawn, with the key that excludes it and where it comes from. -/
structure Candidate where
  entry : Entry
  key : String
  tableId : String
  collectionId : String

namespace Candidate

/-- Candidates with their weights. -/
def weigh : List Candidate → Except Failure (List (Candidate × Weight))
  | [] => .ok []
  | c :: rest => do
    let w ← c.entry.points
    let more ← weigh rest
    return (c, w) :: more

/-- Draws one of the weighed candidates. -/
def draw (pool : List (Candidate × Weight)) : Draw Selection := do
  let (c, w) ← Measure.pick pool
  return ⟨c.entry, c.tableId, c.collectionId, c.key, w, Measure.total (pool.map (·.2)),
    pool.length, none⟩

end Candidate

namespace SimpleTable

/-- The ranges of a table. -/
def ranges (t : SimpleTable) : List RollRange := t.entries.filterMap (·.range)

/-- The lowest and the highest number of some ranges. -/
def span : List RollRange → Option RollRange
  | [] => none
  | r :: rest => some (rest.foldl (fun s r => ⟨min s.first r.first, max s.last r.last⟩) r)

/-- The first entry whose range covers a roll. -/
def entryAt (t : SimpleTable) (roll : Int) : Option Entry :=
  t.entries.find? fun e => e.range.any (·.covers roll)

/-- Draws an entry by a roll. -/
def drawByRoll (t : SimpleTable) (collectionId : String) : Draw Selection :=
  match span t.ranges with
  | none => throw (.selection (.noEntries t.id))
  | some all => do
    let roll ← Draw.between all.first all.last
    match t.entryAt roll with
    | none => throw (.selection (.noRange roll t.id))
    | some entry =>
      let weight ← Draw.lift entry.points
      let total ← Draw.lift (Weight.ofInt all.size)
      return ⟨entry, t.id, collectionId, entry.idText, weight, total, t.entries.length, some roll⟩

/-- The entries of a table that are not excluded. -/
def candidates (t : SimpleTable) (collectionId : String) (excluded : List String) :
    List Candidate :=
  (t.entries.filter fun e => !excluded.contains e.idText).map fun e =>
    ⟨e, e.idText, t.id, collectionId⟩

/-- Draws an entry that is not excluded. -/
def draw (t : SimpleTable) (collectionId : String) (excluded : List String) : Draw Selection :=
  if t.entries.isEmpty then throw (.selection (.noEntries t.id))
  else if t.inRangeMode && excluded.isEmpty then t.drawByRoll collectionId
  else do
    let weighed ← Draw.lift (Candidate.weigh (t.candidates collectionId excluded))
    match weighed.filter fun (_, w) => Measure.isPositive w with
    | [] =>
      throw (.selection (if excluded.isEmpty then .noPositiveWeight t.id else .exhausted t.id))
    | pool => Candidate.draw pool

end SimpleTable

/-- The merged entries of some tables that are not excluded. -/
def poolOf (members : List (SimpleTable × String)) (excluded : List String) : List Candidate :=
  (members.map fun (t, collectionId) =>
    (t.entries.map fun e => ⟨e, t.id ++ "/" ++ e.idText, t.id, collectionId⟩)).flatten.filter
      fun c : Candidate => !excluded.contains c.key

/-- Draws an entry that is not excluded from the merged entries of some tables. -/
def drawPooled (members : List (SimpleTable × String)) (owner : String)
    (excluded : List String) : Draw Selection :=
  match poolOf members excluded with
  | [] =>
    throw (.selection (if excluded.isEmpty then .noPooledEntries owner else .poolExhausted owner))
  | pool => do
    let weighed ← Draw.lift (Candidate.weigh pool)
    Candidate.draw weighed

/-- Draws a source of a composite table: the source, its weight and the sum of all weights. -/
def CompositeTable.draw (t : CompositeTable) : Draw (TableSource × Weight × Weight) :=
  if t.sources.isEmpty then throw (.selection (.noSources t.id))
  else do
    let weighed := t.sources.map fun s => (s, s.points)
    let (s, w) ← Measure.pick weighed
    return (s, w, Measure.total (weighed.map (·.2)))

end RandomTables
