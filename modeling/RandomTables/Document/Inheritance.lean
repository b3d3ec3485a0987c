-- SUMMARY: Entry ids, and simple tables laid over the tables they extend.
import RandomTables.Document.Basic
import RandomTables.Text.Basic

/-!
# Inheritance

A table that extends another one begins with its entries. An entry of its own with the key of an
inherited entry overrides the fields it gives; any other is added at the end. An entry without an id
has a key of its own, made from its table and place.
-/
namespace RandomTables

namespace Entry

/-- The key of the entry at a place in a table: its id, or the table's id and three digits. -/
def key (tableId : String) (index : Nat) (e : Entry) : String :=
  if e.idText.isEmpty then
    tableId ++ String.ofList (Text.padLeft 3 '0' (toString index).toList)
  else e.idText

/-- An inherited entry with the fields that another one gives. The weight and the range count as one
field: giving either clears the other. -/
def overriddenBy (inherited own : Entry) : Entry where
  value := if own.gives .value then own.value else inherited.value
  weight :=
    if own.gives .weight then own.weight
    else if own.gives .range then none
    else inherited.weight
  range :=
    if own.gives .range then own.range
    else if own.gives .weight then none
    else inherited.range
  id := inherited.id
  description := if own.gives .description then own.description else inherited.description
  resultType := if own.gives .resultType then own.resultType else inherited.resultType
  sets := if own.gives .sets then own.sets else inherited.sets
  assets := if own.gives .assets then own.assets else inherited.assets
  tags := if own.gives .tags then own.tags else inherited.tags
  given := inherited.given ++ own.given

end Entry

namespace SimpleTable

/-- The table with an id on every entry. -/
def identified (t : SimpleTable) : SimpleTable :=
  { t with entries := t.entries.zipIdx.map fun (e, index) =>
      if e.idText.isEmpty then { e with id := some (e.key t.id index) } else e }

/-- Lays an entry over the entries so far. -/
def layEntry (tableId : String) (entries : Assoc Entry) (own : Entry × Nat) : Assoc Entry :=
  let key := own.1.key tableId own.2
  match entries.get? key with
  | some inherited => entries.put key (inherited.overriddenBy own.1)
  | none => entries.put key { own.1 with id := some key }

/-- The entries of a table laid over inherited ones. -/
def layEntries (tableId : String) (inherited own : List Entry) : List Entry :=
  let start := Assoc.ofPairs (inherited.map fun e => (e.idText, e))
  (own.zipIdx.foldl (layEntry tableId) start).map (·.2)

/-- The first text that is not empty. -/
def firstText (own inherited : Option String) : Option String :=
  if (own.getD "").isEmpty then inherited else own

/-- Sets of both tables, the table's own over inherited ones. -/
def laySets (inherited own : Option (Assoc String)) : Option (Assoc String) :=
  let sets := Assoc.putAll (inherited.getD []) (own.getD [])
  if sets.isEmpty then none else some sets

/-- The table laid over the table that it extends. -/
def laidOver (t parent : SimpleTable) : SimpleTable :=
  { t with
    entries := layEntries t.id parent.entries t.entries
    defaultSets := laySets parent.defaultSets t.defaultSets
    resultType := firstText t.resultType parent.resultType
    parent := none }

end SimpleTable

end RandomTables
