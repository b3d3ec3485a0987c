-- SUMMARY: Reading integers and doubles from text, with digits of any script.
import RandomTables.Error
import RandomTables.Number.Binary
import RandomTables.Text.Basic
import RandomTables.Text.Digit

/-!
# Reading numbers

A numeral may use the decimals of any script, and single underscores between digits. Blanks around
it are ignored, but not the ASCII separators.
-/
namespace RandomTables.Number

/-! ## Integers and their digits

Integers have no bound, but their numerals do: one with more than `mostDigits` digits is neither
read nor written, and trying to is a breakdown. Leading zeros count when a numeral is read. -/

/-- The greatest number of digits of a numeral. -/
def mostDigits : Nat := 4300

/-- The number that some decimals write. -/
def readDigits (digits : List Char) : Except Failure Nat :=
  if mostDigits < digits.length then .error (.fault .invalidValue) else .ok (Text.numeral digits)

/-- The integer that a sign and some decimals write. -/
def readInteger (negative : Bool) (digits : List Char) : Except Failure Int :=
  (readDigits digits).map (signed negative)

/-- Whether an integer has a numeral. -/
def isWritable (n : Int) : Bool := n.natAbs < tenTo mostDigits

theorem readDigits_of_le {digits : List Char} (h : digits.length ≤ mostDigits) :
    readDigits digits = .ok (Text.numeral digits) := by
  simp [readDigits, Nat.not_lt.2 h]

/-! ## Numerals of doubles -/

open Text

/-- A decimal of any script as an ASCII digit; other characters stay. -/
def asciiDigit (c : Char) : Char :=
  if isDecimal c then Char.ofNat (48 + decimalValue c) else c

/-- The text without its underscores, each of which must stand between two ASCII digits. -/
def dropUnderscores : Bool → List Char → Option (List Char)
  | _, [] => some []
  | afterDigit, '_' :: rest =>
    match rest with
    | c :: _ => if afterDigit && c.isDigit then dropUnderscores false rest else none
    | [] => none
  | _, c :: rest => (dropUnderscores c.isDigit rest).map (c :: ·)

/-- A leading sign and what follows it. -/
def takeSign : List Char → Bool × List Char
  | '-' :: rest => (true, rest)
  | '+' :: rest => (false, rest)
  | cs => (false, cs)

/-- The exponent part of a numeral: nothing, or `e` with an optional sign and digits. -/
def readExponent : List Char → Option Int
  | [] => some 0
  | c :: rest =>
    if c == 'e' || c == 'E' then
      let (negative, digits) := takeSign rest
      if digits.isEmpty || !digits.all Char.isDigit then none
      else some (signed negative (numeral digits))
    else none

/-- The double nearest to `digits * 10 ^ exponent`. Far outside the range of doubles the powers of
ten are not computed. -/
def ofDecimal (negative : Bool) (digits : Nat) (exponent : Int) : Float :=
  let size : Int := exponent + (toString digits).length
  if digits = 0 ∨ size < -330 then ofRatio negative 0 1
  else if 310 < size then infinity negative
  else if 0 ≤ exponent then ofRatio negative (digits * tenTo exponent.toNat) 1
  else ofRatio negative digits (tenTo (-exponent).toNat)

/-- An unsigned numeral of ASCII characters. -/
def readMagnitude (negative : Bool) (cs : List Char) : Option Float :=
  let lowered := cs.map Char.toLower
  if lowered = "inf".toList ∨ lowered = "infinity".toList then some (infinity negative)
  else if lowered = "nan".toList then some nan
  else
    let whole := cs.takeWhile Char.isDigit
    let rest := cs.dropWhile Char.isDigit
    let (fraction, rest) :=
      match rest with
      | '.' :: r => (r.takeWhile Char.isDigit, r.dropWhile Char.isDigit)
      | r => ([], r)
    if whole.isEmpty && fraction.isEmpty then none
    else (readExponent rest).map fun e =>
      ofDecimal negative (numeral (whole ++ fraction)) (e - fraction.length)

/-- Whether a character may surround a numeral. -/
def surroundsNumeral (c : Char) : Bool := isBlank c && !isAsciiSeparator c

/-- A text without the characters that may surround a numeral. -/
def bareNumeral (cs : List Char) : List Char :=
  ((cs.dropWhile surroundsNumeral).reverse.dropWhile surroundsNumeral).reverse

/-- The double that a text writes. -/
def readFloat (cs : List Char) : Option Float :=
  (dropUnderscores false ((bareNumeral cs).map asciiDigit)).bind fun cs =>
    let (negative, cs) := takeSign cs
    readMagnitude negative cs

end RandomTables.Number
