-- SUMMARY: The forms that occur in directives: references, counts, heads of captures, modifiers.
import RandomTables.Directive.Basic
import RandomTables.Text.Letter
import RandomTables.Text.Split

/-!
# Written forms

    reference := part ('.' part)*      part := ASCII word character (word character | '-')*
    count     := decimal+ | '$' word | decimal* ('d' | 'D') decimal+
    head      := '$' word ('[' '-'? decimal+ ']')?
-/
namespace RandomTables.Directive

open Text

/-- Whether a text is a word. -/
def isName (cs : List Char) : Bool := !cs.isEmpty && cs.all isWord

/-- Whether a text is a numeral. -/
def isNumeral (cs : List Char) : Bool := !cs.isEmpty && cs.all isDecimal

/-- A character of a reference after its first. -/
def isRefChar (c : Char) : Bool := isWord c || c == '-'

/-- Whether a text is one part of a reference. -/
def isRefPart : List Char → Bool
  | [] => false
  | c :: rest => isAsciiWord c && rest.all isRefChar

/-- Whether a text is a reference to a table or template. -/
def isReference (cs : List Char) : Bool := (splitAtChar '.' cs).all isRefPart

/-- Whether a text counts by dice: an optional numeral, the letter and a numeral. -/
def isDiceCount (cs : List Char) : Bool :=
  match cs.dropWhile isDecimal with
  | d :: rest => (d == 'd' || d == 'D') && isNumeral rest
  | [] => false

/-- Whether a text counts by a variable. -/
def isVariableCount : List Char → Bool
  | '$' :: rest => isName rest
  | _ => false

/-- Whether a text is a count of rolls. -/
def isCount (cs : List Char) : Bool := isNumeral cs || isVariableCount cs || isDiceCount cs

/-- The count that a text writes. -/
def countOf (cs : List Char) : Except Failure Multiplicity :=
  if isNumeral cs then (Number.readDigits cs).map .literal
  else
    match cs with
    | '$' :: name => .ok (.variable (String.ofList name))
    | _ => (DiceFormula.parse cs).map .dice

/-- The count, the mark of uniqueness and the reference of a repeated roll. -/
def repeatedRoll? (cs : List Char) : Option (List Char × Bool × List Char) :=
  match splitAtChar '*' cs with
  | [count, ref] => if isCount count && isReference ref then some (count, false, ref) else none
  | [count, mark, ref] =>
    if isCount count && mark = "unique".toList && isReference ref then some (count, true, ref)
    else none
  | _ => none

/-- The sign and the decimals of an index between square brackets at the start of a text, and what
follows it. -/
def bracketIndex? (cs : List Char) : Option ((Bool × List Char) × List Char) :=
  match cs with
  | '[' :: rest =>
    let (negative, unsigned) :=
      match rest with
      | '-' :: r => (true, r)
      | r => (false, r)
    let digits := unsigned.takeWhile isDecimal
    match digits, unsigned.dropWhile isDecimal with
    | _ :: _, ']' :: after => some ((negative, digits), after)
    | _, _ => none
  | _ => none

/-- The name and index that a reference to a capture begins with, as they are written, and what
follows. -/
def captureHead? (cs : List Char) :
    Option (List Char × Option (Bool × List Char) × List Char) :=
  match cs with
  | '$' :: rest =>
    let name := rest.takeWhile isWord
    let after := rest.dropWhile isWord
    if name.isEmpty then none
    else
      match bracketIndex? after with
      | some (index, after) => some (name, some index, after)
      | none => some (name, none, after)
  | _ => none

/-- The index that a reference to a capture asks for. -/
def indexOf : Option (Bool × List Char) → Except Failure (Option Int)
  | none => .ok none
  | some (negative, digits) => (Number.readInteger negative digits).map some

/-- The properties of a chain: each behind a point and an at sign. The chain has to be the whole
text. -/
def propertyChain? : Nat → List Char → Option (List String)
  | 0, _ => none
  | fuel + 1, cs =>
    match cs with
    | '.' :: '@' :: rest =>
      let name := rest.takeWhile isWord
      let after := rest.dropWhile isWord
      if name.isEmpty then none
      else if after.isEmpty then some [String.ofList name]
      else (propertyChain? fuel after).map (String.ofList name :: ·)
    | _ => none

/-! ## Modifiers -/

/-- A text before its first bar and the modifiers after it, all without surrounding blanks. -/
def cutModifiers (cs : List Char) : List Char × List (List Char) :=
  match (split '|' none cs).map trim with
  | [] => ([], [])
  | base :: modifiers => (base, modifiers)

/-- The separator among some modifiers, the last one given, and whether the allowed flag occurs. -/
def readModifiers (raw : List Char) (flag : Option String) :
    List (List Char) → Except Failure (Option String × Bool)
  | [] => .ok (none, false)
  | modifier :: rest =>
    if inQuotes modifier then
      (readModifiers raw flag rest).map fun (separator, flagged) =>
        (some (separator.getD (String.ofList (unquoted modifier))), flagged)
    else if flag = some (String.ofList modifier) then
      (readModifiers raw flag rest).map fun (separator, _) => (separator, true)
    else .error (.parse (.unknownModifier (String.ofList modifier)) (String.ofList raw) none)

/-! ## Kinds -/

/-- Whether a mark for capturing occurs: two signs for greater, blanks, and a dollar sign. -/
def hasCaptureMark : List Char → Bool
  | [] => false
  | c :: rest =>
    (match c :: rest with
      | '>' :: '>' :: after => (trimStart after).head? == some '$'
      | _ => false) || hasCaptureMark rest

/-- Whether a text begins with a variable as count, a star and a reference. -/
def startsVariableCount : List Char → Bool
  | '$' :: rest =>
    let name := rest.takeWhile isWord
    !name.isEmpty &&
      (match rest.dropWhile isWord with
        | '*' :: c :: _ => isAsciiWord c
        | _ => false)
  | _ => false

/-- Whether a text begins like an access to the items, count or value of a capture. -/
def startsCaptureAccess : List Char → Bool
  | '$' :: rest =>
    let name := rest.takeWhile isWord
    let after := rest.dropWhile isWord
    !name.isEmpty && (after.head? == some '[' || after.head? == some '|'
      || after = ".count".toList || after = ".value".toList)
  | _ => false

/-- Whether a text begins with a count, not by a variable, and a star. -/
def startsCount (cs : List Char) : Bool :=
  let (count, _) := cutAtChar '*' cs
  cs.contains '*' && (isNumeral count || isDiceCount count)

/-- Whether a text ends with another one. -/
def endsWith (tail cs : List Char) : Bool := tail.isSuffixOf cs

def startsWith (head cs : List Char) : Bool := head.isPrefixOf cs

/-- The kind of directive that a text without surrounding blanks writes. -/
def kindOfTrimmed (cs : List Char) : Directive.Kind :=
  if holds "switch[".toList cs then .switch
  else if startsWith "dice:".toList cs then .dice
  else if startsWith "math:".toList cs then .math
  else if startsWith "collect:".toList cs then .collect
  else if hasCaptureMark cs then .capture
  else if cs.head? == some '$' then
    if startsVariableCount cs then .multiRoll
    else if cs.contains '@' then .captureProperty
    else if startsCaptureAccess cs then .captureAccess
    else .variable
  else if cs.head? == some '@' then .placeholder
  else
    let base := trim (cutAtChar '|' cs).1
    if base = "again".toList || endsWith "*again".toList base then .again
    else if startsWith "unique:".toList cs then .unique
    else if startsCount cs then .multiRoll
    else .table

/-- The kind of directive that a text writes. The text alone decides; no document is consulted. -/
def kindOf (cs : List Char) : Directive.Kind := kindOfTrimmed (trim cs)

end RandomTables.Directive
