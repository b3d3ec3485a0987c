-- SUMMARY: Reading contents from JSON: texts, and items with sets of their own.
import RandomTables.Content
import RandomTables.Schema.Reading

/-!
# Reading contents

A content is a text or an item. A value that is neither has the issues of both readings, each under
the name of the reading.
-/
namespace RandomTables.Schema

/-- The name of items in messages. -/
def itemSort : String := "CaptureItem"

/-- The item of an object whose sets have been read. -/
def itemWith (fields : List (String × Json)) (sets : Checked (Assoc Content)) : Checked Item :=
  Item.mk <$> field (.obj fields) "value" text <*> sets <*> field? (.obj fields) "description" text

/-- The item that a value was read as. Without one the issues say why it is no text either. -/
def contentOr (notText : Checked String) : Checked Item → Checked Content
  | .ok i => .ok i.content
  | .refused issues =>
    .refused ((notText.under "str").issues ++
      ((Checked.refused issues : Checked Item).under itemSort).issues)

mutual

def content : Reader Content
  | .str s => .ok (.text s)
  | .obj fields => contentOr (text (.obj fields)) (itemWith fields (setsField fields))
  | j => contentOr (text j) (.refuse (.objectOf itemSort))

/-- The sets of an item, none if they are left out. -/
def setsField : List (String × Json) → Checked (Assoc Content)
  | [] => .ok []
  | (key, j) :: rest => if key = "sets" then (sets j).under key else setsField rest

def sets : Reader (Assoc Content)
  | .obj fields => contents fields
  | _ => .refuse .object

/-- The contents under some keys. -/
def contents : List (String × Json) → Checked (Assoc Content)
  | [] => .ok []
  | (key, j) :: rest =>
    List.cons <$> (Prod.mk key <$> content j).under (Text.withoutSurrogates key) <*> contents rest

end

def item : Reader Item
  | .obj fields => itemWith fields (setsField fields)
  | _ => .refuse (.objectOf itemSort)

end RandomTables.Schema
