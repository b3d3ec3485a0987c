-- SUMMARY: JSON values as messages show them, and JSON text, on one line or indented.
import RandomTables.Json.Basic
import RandomTables.Number.Text
import RandomTables.Text.Printable

/-!
# Writing JSON

Characters outside ASCII stand for themselves; quotes, backslashes and control characters are
escaped. Without an indentation everything stands on one line, with a blank after each comma and
colon; with one, each item has its own line, and empty objects and arrays stay closed.
-/
namespace RandomTables.Json

/-! ## Shown values

A message shows a text as it is. Any other value is shown with its brackets, and the texts inside it
stand between single quotes. -/

mutual

/-- A value with its texts between quotes. -/
def quoted : Json → String
  | .null => "None"
  | .bool b => if b then "True" else "False"
  | .int n => toString n
  | .float x => Number.floatText x
  | .str s => Text.shown s
  | .arr items => "[" ++ String.intercalate ", " (quotedAll items) ++ "]"
  | .obj fields => "\x7b" ++ String.intercalate ", " (quotedFields fields) ++ "\x7d"

def quotedAll : List Json → List String
  | [] => []
  | item :: rest => quoted item :: quotedAll rest

def quotedFields : List (String × Json) → List String
  | [] => []
  | (key, value) :: rest => (Text.shown key ++ ": " ++ quoted value) :: quotedFields rest

end

/-- A value in a message. -/
def shown : Json → String
  | .str s => s
  | j => quoted j

/-! ## Written values -/

/-- How a character is written between quotes. -/
def writeChar (c : Char) : List Char :=
  if c == '"' then ['\\', '"']
  else if c == '\\' then ['\\', '\\']
  else if c == '\n' then ['\\', 'n']
  else if c == '\r' then ['\\', 'r']
  else if c == '\t' then ['\\', 't']
  else if c.toNat = 8 then ['\\', 'b']
  else if c.toNat = 12 then ['\\', 'f']
  else if c.toNat < 32 then ['\\', 'u'] ++ Text.hexDigits 4 c.toNat
  else [c]

/-- A text between quotes. -/
def writeText (text : String) : String :=
  String.ofList ('"' :: text.toList.flatMap writeChar ++ ['"'])

/-- A double as the shortest text that reads back. -/
def writeFloat (x : Float) : String :=
  match Number.Double.ofFloat x with
  | .nan => "NaN"
  | .infinite negative => if negative then "-Infinity" else "Infinity"
  | _ => Number.floatText x

/-- The break before an item at a depth. -/
def lineBreak (indent : Nat) (depth : Nat) : String :=
  String.ofList ('\n' :: List.replicate (indent * depth) ' ')

/-- Written items between brackets: each on a line of its own if there is an indentation. -/
def bracketed (indent : Option Nat) (depth : Nat) (left right : String) (items : List String) :
    String :=
  if items.isEmpty then left ++ right
  else match indent with
    | none => left ++ String.intercalate ", " items ++ right
    | some n =>
      left ++ lineBreak n (depth + 1) ++ String.intercalate ("," ++ lineBreak n (depth + 1)) items
        ++ lineBreak n depth ++ right

mutual

/-- The text of a value at a depth. -/
def write (indent : Option Nat) (depth : Nat) : Json → String
  | .null => "null"
  | .bool value => if value then "true" else "false"
  | .int value => toString value
  | .float value => writeFloat value
  | .str text => writeText text
  | .arr items => bracketed indent depth "[" "]" (writeItems indent (depth + 1) items)
  | .obj fields => bracketed indent depth "\x7b" "\x7d" (writeFields indent (depth + 1) fields)

def writeItems (indent : Option Nat) (depth : Nat) : List Json → List String
  | [] => []
  | item :: rest => write indent depth item :: writeItems indent depth rest

def writeFields (indent : Option Nat) (depth : Nat) : List (String × Json) → List String
  | [] => []
  | (key, value) :: rest =>
    (writeText key ++ ": " ++ write indent depth value) :: writeFields indent depth rest

end

/-- The text of a value. -/
def text (indent : Option Nat) (value : Json) : String := value.write indent 0

end RandomTables.Json
