-- SUMMARY: Checked values: a value, or every issue that stands in its way.
import RandomTables.Document.Basic

/-!
# Checked values

Reading a value of a certain form from JSON gives the value, or the list of all its issues, each
with the path to the place where it arose. Values that belong together are read independently, so
that one pass reports everything, in the order in which the parts are read.
-/
namespace RandomTables.Schema

/-- How a JSON value differs from what is asked for. -/
inductive Mismatch where
  | required
  | text
  | brokenText
  | integer
  | integerText
  | integerFraction
  | integerSize
  | finite
  | number
  | numberText
  | boolean
  | booleanValue
  | tooSmall (least : Nat)
  | choice (names : List String)
  | list
  | tuple
  | tooLong (most size : Nat)
  | object
  | objectOf (sort : String)
  | noTag
  | unknownTag (tag : String)
  | blankNamespace
  | aliasToken (importAlias : String)
  | weightAndRange
  | reversedRange (range : RollRange)
  deriving DecidableEq, Repr

/-- Names between single quotes, the last one behind a word. -/
def alternatives : List String → String
  | [] => ""
  | [name] => "'" ++ name ++ "'"
  | [a, b] => "'" ++ a ++ "' or '" ++ b ++ "'"
  | name :: rest => "'" ++ name ++ "', " ++ alternatives rest

/-- A range between square brackets. -/
def rangeText (r : RollRange) : String := "[" ++ toString r.first ++ ", " ++ toString r.last ++ "]"

/-- The tags of tables. -/
def tags : List String := ["simple", "composite", "collection"]

/-- The name by which messages call the rule that finds a table's tag. -/
def tagRule : String := "_table_type()"

def Mismatch.message : Mismatch → String
  | .required => "Field required"
  | .text => "Input should be a valid string"
  | .brokenText => "Input should be a valid string, unable to parse raw data as a unicode string"
  | .integer => "Input should be a valid integer"
  | .integerText => "Input should be a valid integer, unable to parse string as an integer"
  | .integerFraction => "Input should be a valid integer, got a number with a fractional part"
  | .integerSize => "Unable to parse input string as an integer, exceeded maximum size"
  | .finite => "Input should be a finite number"
  | .number => "Input should be a valid number"
  | .numberText => "Input should be a valid number, unable to parse string as a number"
  | .boolean => "Input should be a valid boolean"
  | .booleanValue => "Input should be a valid boolean, unable to interpret input"
  | .tooSmall least => "Input should be greater than or equal to " ++ toString least
  | .choice names => "Input should be " ++ alternatives names
  | .list => "Input should be a valid list"
  | .tuple => "Input should be a valid tuple"
  | .tooLong most size =>
    "Tuple should have at most " ++ toString most ++ " items after validation, not " ++
      toString size
  | .object => "Input should be a valid dictionary"
  | .objectOf sort => "Input should be a valid dictionary or instance of " ++ sort
  | .noTag => "Unable to extract tag using discriminator " ++ tagRule
  | .unknownTag tag =>
    "Input tag '" ++ tag ++ "' found using " ++ tagRule ++
      " does not match any of the expected tags: " ++
      String.intercalate ", " (tags.map fun t => "'" ++ t ++ "'")
  | .blankNamespace => "Value error, namespace must not be empty"
  | .aliasToken importAlias =>
    "Value error, import alias must be a non-empty token without dots: '" ++ importAlias ++ "'"
  | .weightAndRange => "Value error, entry may declare either 'weight' or 'range', not both"
  | .reversedRange range => "Value error, range start must not exceed end: " ++ rangeText range

/-- A mismatch and the path to its place. -/
structure Issue where
  path : List String
  mismatch : Mismatch
  deriving DecidableEq, Repr

def Issue.text (i : Issue) : String :=
  (if i.path.isEmpty then "<root>" else String.intercalate "." i.path) ++ ": " ++ i.mismatch.message

/-- A value, or its issues. -/
inductive Checked (α : Type) where
  | ok (value : α)
  | refused (issues : List Issue)

namespace Checked

variable {α β : Type}

/-- What stands in the way of a value. -/
def issues : Checked α → List Issue
  | .ok _ => []
  | .refused issues => issues

/-- A value that is refused for one reason. -/
def refuse (m : Mismatch) : Checked α := .refused [⟨[], m⟩]

def map (f : α → β) : Checked α → Checked β
  | .ok a => .ok (f a)
  | .refused issues => .refused issues

/-- Applies a checked function to a checked value; the issues of both are kept, in order. -/
def apply (f : Checked (α → β)) (x : Checked α) : Checked β :=
  match f, x with
  | .ok f, .ok a => .ok (f a)
  | .ok _, .refused issues => .refused issues
  | .refused issues, .ok _ => .refused issues
  | .refused issues, .refused more => .refused (issues ++ more)

instance : Applicative Checked where
  pure := .ok
  map f x := map f x
  seq f x := apply f (x ())

/-- The value, whose issues are those of the part under a key. -/
def under (key : String) : Checked α → Checked α
  | .ok a => .ok a
  | .refused issues => .refused (issues.map fun i => { i with path := key :: i.path })

/-- The value, unless a further rule speaks against it. -/
def checkedBy (rule : α → Option Mismatch) : Checked α → Checked α
  | .ok a =>
    match rule a with
    | none => .ok a
    | some m => refuse m
  | .refused issues => .refused issues

/-- The checked value of every item, in order. -/
def all (read : Nat → α → Checked β) : Nat → List α → Checked (List β)
  | _, [] => .ok []
  | index, a :: rest => List.cons <$> read index a <*> all read (index + 1) rest

end Checked

end RandomTables.Schema
