-- SUMMARY: JSON values with ordered objects and a distinction between integers and doubles.
import RandomTables.Assoc

/-!
# JSON values

Documents, trace attributes and results are JSON values. Integers have no size limit and stay apart
from doubles; the keys of an object keep their order.
-/
namespace RandomTables

inductive Json where
  | null
  | bool (value : Bool)
  | int (value : Int)
  | float (value : Float)
  | str (text : String)
  | arr (items : List Json)
  | obj (fields : List (String × Json))
  deriving Inhabited

namespace Json

/-- The value under a key of an object. -/
def get? : Json → String → Option Json
  | .obj fields, key => Assoc.get? fields key
  | _, _ => none

/-- A text, or null. -/
def ofOption : Option String → Json
  | some text => .str text
  | none => .null

/-- An object whose values are texts. -/
def ofTexts (texts : Assoc String) : Json := .obj (texts.map fun (key, text) => (key, .str text))

/-- An array of texts. -/
def ofList (texts : List String) : Json := .arr (texts.map .str)

/-- An array of integers. -/
def ofInts (ints : List Int) : Json := .arr (ints.map .int)

end Json

end RandomTables
