-- SUMMARY: What sets, captures and shared variables hold, and the properties of items.
import RandomTables.Json.Basic

/-!
# Contents

A roll leaves more than its text: the sets of the drawn entry and its description. An item keeps all
of it. Sets and shared variables hold a text or an item, and the sets of an item hold the same.
-/
namespace RandomTables

/-- A text, or the value, sets and description of an item. -/
inductive Content where
  | text (s : String)
  | item (value : String) (sets : List (String × Content)) (description : Option String)

/-- What one roll left. -/
structure Item where
  value : String
  sets : Assoc Content := []
  description : Option String := none

/-- An item as a content. -/
def Item.content (i : Item) : Content := .item i.value i.sets i.description

namespace Content

/-- The text that a content reads as. -/
def value : Content → String
  | .text s => s
  | .item value _ _ => value

/-- The item that a content is, if it is one. -/
def item? : Content → Option Item
  | .text _ => none
  | .item value sets description => some ⟨value, sets, description⟩

/-- A content as an item; a text becomes an item without sets. -/
def toItem : Content → Item
  | .text s => ⟨s, [], none⟩
  | .item value sets description => ⟨value, sets, description⟩

mutual

def toJson : Content → Json
  | .text s => .str s
  | .item value sets description =>
    .obj [("value", .str value), ("sets", .obj (setsJson sets)),
      ("description", Json.ofOption description)]

def setsJson : List (String × Content) → List (String × Json)
  | [] => []
  | (key, c) :: rest => (key, toJson c) :: setsJson rest

end

end Content

/-- The items that one directive captured. -/
abbrev Captured := List Item

/-- Captures as an object with the items of each. -/
def capturesJson (captures : Assoc Captured) : Json :=
  .obj (captures.map fun (name, items) =>
    (name, .obj [("items", .arr (items.map fun i => i.content.toJson))]))

/-! ## Properties of items

A chain of properties leads from an item through its sets. The description of an item is a property
too, unless a set has that name. -/

namespace Item

/-- What one property of an item leads to. -/
def property? (i : Item) (name : String) : Option Content :=
  if name = "description" ∧ ¬ i.sets.has name then some (.text (i.description.getD ""))
  else i.sets.get? name

/-- What a chain of properties leads to, following at each link the given step. -/
def follow (step : Item → String → Option Content) : Content → List String → Option Content
  | c, [] => some c
  | .text _, _ :: _ => none
  | .item value sets description, name :: rest =>
    (step ⟨value, sets, description⟩ name).bind fun c => follow step c rest

/-- The text at the end of a chain of properties, empty if the chain breaks. -/
def textAt (i : Item) (properties : List String) : String :=
  ((follow property? i.content properties).map Content.value).getD ""

/-- The item at the end of a chain of sets. -/
def along (i : Item) (properties : List String) : Option Item :=
  (follow (fun i name => i.sets.get? name) i.content properties).map Content.toItem

/-- One property of an item for a collection: one of its sets, its description or its value. -/
def collected (i : Item) (name : String) (fromSets : Bool) : String :=
  if fromSets then ((i.sets.get? name).map Content.value).getD ""
  else if name = "description" then i.description.getD ""
  else i.value

end Item

end RandomTables
