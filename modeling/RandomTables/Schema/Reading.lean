-- SUMMARY: Reading texts, numbers, truth values, lists, pairs and the fields of objects from JSON.
import RandomTables.Json.Basic
import RandomTables.Number.Reading
import RandomTables.Schema.Basic

/-!
# Reading values

A text has to be a text. Integers, numbers and truth values may also be written as one another or as
texts, as long as nothing is lost.

    plain   := '-'? ('0' | digit from 1 to 9, digits)
    integer := plain | blanks ('+' | '-')? zeros digits ('.' '0' '0'*)? blanks

Single underscores may stand between the digits of a numeral that is not plain.

A field goes by its name, whose words are joined by capitals, or by the same words joined by
underscores; the name itself counts where both are there. Fields that nobody asks for are ignored.
-/
namespace RandomTables.Schema

open Text

/-- What reads a value of a certain form from JSON. -/
abbrev Reader (α : Type) := Json → Checked α

def text : Reader String
  | .str s => .ok s
  | _ => .refuse .text

/-! ## Numerals -/

/-- The integer that a plain numeral writes: a minus for negative ones, no leading zeros. One that
is too long is refused as such before what follows its digits is looked at. -/
def plainInteger (cs : List Char) : Except Mismatch Int :=
  let (negative, digits) :=
    match cs with
    | '-' :: rest => (true, rest)
    | rest => (false, rest)
  if digits = ['0'] then .ok 0
  else if digits.isEmpty || digits.head? == some '0' then .error .integerText
  else if Number.mostDigits < (digits.takeWhile Char.isDigit).length + (if negative then 1 else 0)
    then .error .integerSize
  else if digits.all Char.isDigit then .ok (Number.signed negative (numeral digits))
  else .error .integerText

/-- A numeral whose leading zeros are dropped, together with the underscores among them. The last
zero stays before a point and at the end; a minus may follow the zeros. -/
def dropLeadingZeros : Char → List Char → Option (List Char)
  | previous, [] => some [previous]
  | previous, c :: rest =>
    if c == '0' || c == '_' then dropLeadingZeros c rest
    else if c == '.' then some (previous :: c :: rest)
    else if c.isDigit || c == '-' then some (c :: rest)
    else none

/-- A numeral without leading zeros. -/
def withoutLeadingZeros : List Char → Option (List Char)
  | '0' :: rest => dropLeadingZeros '0' rest
  | c :: rest => if c.isDigit then some (c :: rest) else none
  | [] => none

/-- A numeral without a fraction of zeros. -/
def withoutZeroFraction (cs : List Char) : List Char :=
  match cs.dropWhile (· != '.') with
  | '.' :: '0' :: fraction => if fraction.all (· == '0') then cs.takeWhile (· != '.') else cs
  | _ => cs

/-- Whether two underscores stand side by side. -/
def hasDoubledUnderscore : List Char → Bool
  | a :: b :: rest => (a == '_' && b == '_') || hasDoubledUnderscore (b :: rest)
  | _ => false

/-- A text without its underscores, if none stands at an end and no two stand side by side. -/
def joinUnderscores (cs : List Char) : Option (List Char) :=
  if cs.head? == some '_' || cs.getLast? == some '_' || hasDoubledUnderscore cs then none
  else some (cs.filter (· != '_'))

/-- The plain form of a numeral with blanks, a plus, leading zeros, underscores or a fraction of
zeros. -/
def plainForm (cs : List Char) : Option (List Char) := do
  let unsigned ← match Number.bareNumeral cs with
    | '+' :: '-' :: _ => none
    | '+' :: rest => some rest
    | rest => some rest
  let (minus, magnitude) :=
    match unsigned with
    | '-' :: rest => (['-'], rest)
    | rest => ([], rest)
  joinUnderscores (withoutZeroFraction (minus ++ (← withoutLeadingZeros magnitude)))

/-- The integer that a text writes. -/
def integerOf (cs : List Char) : Except Mismatch Int :=
  match plainInteger cs with
  | .error .integerText =>
    match (plainForm cs).map plainInteger with
    | some (.ok n) => .ok n
    | _ => .error .integerText
  | result => result

/-- The double that a text of ASCII characters writes. -/
def numberOf (cs : List Char) : Option Float :=
  let read (cs : List Char) : Option Float :=
    let (negative, cs) := Number.takeSign cs
    Number.readMagnitude negative cs
  match read (Number.bareNumeral cs) with
  | some x => some x
  | none => (joinUnderscores cs).bind read

/-! ## Readers -/

/-- What is read from a text that has to be made of characters alone. -/
def fromWhole {α : Type} (s : String) (read : String → Checked α) : Checked α :=
  if isWhole s then read s else .refuse .brokenText

def integer : Reader Int
  | .int n => .ok n
  | .bool b => .ok (if b then 1 else 0)
  | .str s => fromWhole s fun s =>
    match integerOf s.toList with
    | .ok n => .ok n
    | .error m => .refuse m
  | .float x =>
    match Number.Double.ofFloat x with
    | .finite negative m e =>
      match (Number.Double.finite negative m e).integer? with
      | none => .refuse .integerFraction
      | some n => if n.natAbs < Number.twoTo 63 then .ok n else .refuse .integerSize
    | _ => .refuse .finite
  | _ => .refuse .integer

/-- An integer that is not less than a bound. -/
def integerFrom (least : Nat) : Reader Nat := fun j =>
  ((integer j).checkedBy fun n => if (least : Int) ≤ n then none else some (.tooSmall least)).map
    Int.toNat

def number : Reader Float
  | .float x => .ok x
  | .int n => if Number.intOverflows n then .refuse .number else .ok (Number.ofInt n)
  | .bool b => .ok (if b then 1 else 0)
  | .str s => fromWhole s fun s =>
    match numberOf s.toList with
    | some x => .ok x
    | none => .refuse .numberText
  | _ => .refuse .number

/-- A number that is not negative. -/
def weight : Reader Float := fun j =>
  (number j).checkedBy fun x => if 0 ≤ x then none else some (.tooSmall 0)

/-- The truth value that a text writes, in any letter case. -/
def booleanOf (s : String) : Option Bool :=
  let word := s.map Char.toLower
  if ["0", "off", "f", "false", "n", "no"].contains word then some false
  else if ["1", "on", "t", "true", "y", "yes"].contains word then some true
  else none

/-- The truth value that an integer stands for. -/
def booleanOfInt (n : Int) : Checked Bool :=
  if n = 0 then .ok false else if n = 1 then .ok true else .refuse .booleanValue

def boolean : Reader Bool
  | .bool b => .ok b
  | .str s => fromWhole s fun s =>
    match booleanOf s with
    | some b => .ok b
    | none => .refuse .booleanValue
  | .int n =>
    if -Number.twoTo 63 ≤ n ∧ n < Number.twoTo 63 then booleanOfInt n else .refuse .boolean
  | .float x =>
    match integer (.float x) with
    | .ok n => booleanOfInt n
    | .refused _ => .refuse .boolean
  | _ => .refuse .boolean

/-- One of some names. -/
def choice {α : Type} (values : List α) (name : α → String) : Reader α
  | .str s => fromWhole s fun s =>
    match values.find? fun a => name a = s with
    | some a => .ok a
    | none => .refuse (.choice (values.map name))
  | _ => .refuse (.choice (values.map name))

/-! ## Fields -/

section

variable {α : Type}

/-- A name with its words joined by underscores. -/
def underscored (name : String) : String :=
  String.ofList (name.toList.flatMap fun c => if c.isUpper then ['_', c.toLower] else [c])

/-- The value of a field under a name or its other spelling. -/
def valueOf (j : Json) (name other : String) : Option Json := (j.get? name).or (j.get? other)

/-- The value of a field. -/
def value? (j : Json) (name : String) : Option Json := valueOf j name (underscored name)

/-- A value that may be null. -/
def nullable (read : Reader α) : Reader (Option α)
  | .null => .ok none
  | j => some <$> read j

/-- A field that has to be there. -/
def field (j : Json) (name : String) (read : Reader α) : Checked α :=
  Checked.under name <|
    match value? j name with
    | some value => read value
    | none => .refuse .required

/-- A field that has a value when it is left out. -/
def fieldD (j : Json) (name : String) (default : α) (read : Reader α) : Checked α :=
  match value? j name with
  | some value => (read value).under name
  | none => .ok default

/-- A field that may be left out or null. -/
def field? (j : Json) (name : String) (read : Reader α) : Checked (Option α) :=
  fieldD j name none (nullable read)

/-- An object of a sort. -/
def object (sort : String) (read : Json → Checked α) : Reader α
  | .obj fields => read (.obj fields)
  | _ => .refuse (.objectOf sort)

/-- A list, all of whose items are read. -/
def list (read : Reader α) : Reader (List α)
  | .arr items => Checked.all (fun index j => (read j).under (toString index)) 0 items
  | _ => .refuse .list

/-- An object whose values are texts. -/
def texts : Reader (Assoc String)
  | .obj fields =>
    Checked.all (fun _ (key, j) => (Prod.mk key <$> text j).under (Text.withoutSurrogates key)) 0
      fields
  | _ => .refuse .object

/-- The first and the last roll of a range. -/
def range : Reader RollRange
  | .arr items =>
    if 2 < items.length then .refuse (.tooLong 2 items.length)
    else
      let bound (index : Nat) : Checked Int :=
        Checked.under (toString index) <|
          match items[index]? with
          | some j => integer j
          | none => .refuse .required
      RollRange.mk <$> bound 0 <*> bound 1
  | _ => .refuse .tuple

/-- A page is kept as it is if it is an integer or a text. -/
def page : Reader Page
  | .str s => .ok (.text s)
  | j =>
    match integer j with
    | .ok n => .ok (.number n)
    | .refused _ => .refused (((integer j).under "int").issues ++ ((text j).under "str").issues)

end

end RandomTables.Schema
