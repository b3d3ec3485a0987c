-- SUMMARY: Reading JSON text, with the position and kind of the first fault.
import RandomTables.Json.Basic
import RandomTables.Number.Reading
import RandomTables.Text.Surrogate

/-!
# Reading JSON

The text is a list of code points. The reader also accepts `NaN`, `Infinity` and `-Infinity`; of
equal keys in an object the last value counts, at the first place. Each fault has the position that
a writer of the document would look at.
-/
namespace RandomTables.Json

/-- What can be wrong with JSON text. -/
inductive Fault where
  | expectingValue
  | expectingName
  | expectingColon
  | expectingComma
  | extraData
  | unterminatedString
  | controlCharacter
  | invalidEscape
  | invalidUnicodeEscape
  | byteOrderMark
  deriving DecidableEq, Repr

def Fault.message : Fault → String
  | .expectingValue => "Expecting value"
  | .expectingName => "Expecting property name enclosed in double quotes"
  | .expectingColon => "Expecting ':' delimiter"
  | .expectingComma => "Expecting ',' delimiter"
  | .extraData => "Extra data"
  | .unterminatedString => "Unterminated string starting at"
  | .controlCharacter => "Invalid control character at"
  | .invalidEscape => "Invalid \\escape"
  | .invalidUnicodeEscape => "Invalid \\uXXXX escape"
  | .byteOrderMark => "Unexpected UTF-8 BOM (decode using utf-8-sig)"

/-- A place in a text: the position and what follows it. -/
structure Cursor where
  position : Nat
  rest : List Nat

/-- Why a text cannot be read. -/
inductive Refusal where
  | fault (fault : Fault) (position : Nat)
  /-- A breakdown in the middle of the text, of an integer with too many digits. -/
  | breakdown (f : Failure)

abbrev Reading (α : Type) := Except Refusal α

def refuse {α : Type} (fault : Fault) (position : Nat) : Reading α :=
  .error (.fault fault position)

namespace Cursor

def skip (c : Cursor) (n : Nat) : Cursor := ⟨c.position + n, c.rest.drop n⟩

/-- Whether the rest begins with a word. -/
def startsWith (c : Cursor) (word : String) : Bool := (word.toList.map Char.toNat).isPrefixOf c.rest

/-- Whether the next character is the given one. -/
def atChar (c : Cursor) (ch : Char) : Bool := c.rest.head? == some ch.toNat

def isSpace (code : Nat) : Bool := code = 32 || code = 9 || code = 10 || code = 13

def skipSpaces (c : Cursor) : Cursor :=
  let spaces := c.rest.takeWhile isSpace
  ⟨c.position + spaces.length, c.rest.dropWhile isSpace⟩

end Cursor

/-! ## Texts -/

/-- The value of a hexadecimal digit. -/
def hexValue (code : Nat) : Option Nat :=
  if 48 ≤ code ∧ code ≤ 57 then some (code - 48)
  else if 97 ≤ code ∧ code ≤ 102 then some (code - 87)
  else if 65 ≤ code ∧ code ≤ 70 then some (code - 55)
  else none

/-- The value of four hexadecimal digits at the start of a text. -/
def hex4 : List Nat → Option Nat
  | a :: b :: c :: d :: _ => do
    let a ← hexValue a
    let b ← hexValue b
    let c ← hexValue c
    let d ← hexValue d
    return ((a * 16 + b) * 16 + c) * 16 + d
  | _ => none

def isHighSurrogate (code : Nat) : Bool := 0xd800 ≤ code && code < 0xdc00

def isLowSurrogate (code : Nat) : Bool := 0xdc00 ≤ code && code < 0xe000

/-- The character that stands for itself or a control character after a backslash. -/
def simpleEscape (code : Nat) : Option Nat :=
  if code = 34 ∨ code = 92 ∨ code = 47 then some code
  else if code = 98 then some 8
  else if code = 102 then some 12
  else if code = 110 then some 10
  else if code = 114 then some 13
  else if code = 116 then some 9
  else none

/-- Reads an escape that begins after the backslash and a `u` at the cursor: the code point and the
number of characters from the `u` on. Two escapes that form a surrogate pair are read as one. -/
def unicodeEscape (c : Cursor) : Reading (Nat × Nat) :=
  let digits := c.rest.drop 1
  -- one more character has to follow the four digits
  match hex4 digits, digits.drop 4 with
  | some code, next :: afterNext =>
    let lone := .ok (code, 5)
    if isHighSurrogate code && next == 92 && afterNext.head? == some 117 &&
        5 < afterNext.length then
      match hex4 (afterNext.drop 1) with
      | some low =>
        if isLowSurrogate low then
          .ok (0x10000 + (code - 0xd800) * 0x400 + (low - 0xdc00), 11)
        else lone
      | none => refuse .invalidUnicodeEscape (c.position + 6)
    else lone
  | _, _ => refuse .invalidUnicodeEscape c.position

/-- The code points of a text up to its closing quote, and the place after the quote. The text began
at `start`; `skip` characters of an escape are still to be passed over. -/
def readText (start : Nat) : List Nat → Nat → Nat → Reading (List Nat × Cursor)
  | [], _, _ => refuse .unterminatedString start
  | _ :: rest, position, skip + 1 => readText start rest (position + 1) skip
  | code :: rest, position, 0 =>
    if code = 34 then .ok ([], ⟨position + 1, rest⟩)
    else if code = 92 then
      match rest with
      | [] => refuse .unterminatedString start
      | next :: _ =>
        if next = 117 then do
          let (escaped, size) ← unicodeEscape ⟨position + 1, rest⟩
          let (codes, after) ← readText start rest (position + 1) size
          return (escaped :: codes, after)
        else
          match simpleEscape next with
          | some escaped => do
            let (codes, after) ← readText start rest (position + 1) 1
            return (escaped :: codes, after)
          | none => refuse .invalidEscape position
    else if code ≤ 31 then refuse .controlCharacter position
    else do
      let (codes, after) ← readText start rest (position + 1) 0
      return (code :: codes, after)

/-- Code points as a text. -/
def textOf (codes : List Nat) : String := String.ofList (codes.map Text.charOf)

/-! ## Numbers -/

def isDigitCode (code : Nat) : Bool := 48 ≤ code && code ≤ 57

/-- The digits at the start of a text and what follows them. -/
def spanDigits (codes : List Nat) : List Nat × List Nat :=
  (codes.takeWhile isDigitCode, codes.dropWhile isDigitCode)

/-- The whole part of a number: a zero, or digits without a leading zero. -/
def wholePart (codes : List Nat) : Option (List Nat × List Nat) :=
  match codes with
  | [] => none
  | 48 :: rest => some ([48], rest)
  | code :: _ => if isDigitCode code then some (spanDigits codes) else none

/-- The fraction of a number, which needs a digit after the point. -/
def fractionPart (codes : List Nat) : List Nat × List Nat :=
  match codes with
  | 46 :: rest =>
    let (digits, after) := spanDigits rest
    if digits.isEmpty then ([], codes) else (46 :: digits, after)
  | _ => ([], codes)

/-- The exponent of a number, which needs a digit after its sign. -/
def exponentPart (codes : List Nat) : List Nat × List Nat :=
  match codes with
  | e :: rest =>
    if e = 101 ∨ e = 69 then
      let (sign, unsigned) :=
        match rest with
        | 43 :: r => ([43], r)
        | 45 :: r => ([45], r)
        | r => ([], r)
      let (digits, after) := spanDigits unsigned
      if digits.isEmpty then ([], codes) else (e :: sign ++ digits, after)
    else ([], codes)
  | [] => ([], codes)

/-- A number at the cursor. -/
def readNumber (c : Cursor) : Reading (Json × Cursor) :=
  let (sign, unsigned) :=
    match c.rest with
    | 45 :: r => ([45], r)
    | r => ([], r)
  match wholePart unsigned with
  | none => refuse .expectingValue c.position
  | some (whole, rest) =>
    let (fraction, rest) := fractionPart rest
    let (exponent, rest) := exponentPart rest
    let codes := sign ++ whole ++ fraction ++ exponent
    let after : Cursor := ⟨c.position + codes.length, rest⟩
    if fraction.isEmpty && exponent.isEmpty then
      match Number.readInteger (!sign.isEmpty) (whole.map Char.ofNat) with
      | .ok n => .ok (.int n, after)
      | .error f => .error (.breakdown f)
    else
      .ok (.float ((Number.readFloat (codes.map Char.ofNat)).getD 0), after)

/-! ## Values -/

/-- A word that is a value by itself. -/
def readWord (c : Cursor) : Option (Json × Cursor) :=
  let words : List (String × Json) :=
    [("null", .null), ("true", .bool true), ("false", .bool false), ("NaN", .float Number.nan),
     ("Infinity", .float (Number.infinity false)), ("-Infinity", .float (Number.infinity true))]
  (words.find? fun (word, _) => c.startsWith word).map fun (word, value) =>
    (value, c.skip word.length)

mutual

/-- Reads a value at the cursor. The fuel bounds the number of values and brackets. -/
def readValue : Nat → Cursor → Reading (Json × Cursor)
  | 0, c => refuse .expectingValue c.position
  | fuel + 1, c =>
    if c.atChar '"' then do
      let (codes, after) ← readText c.position (c.rest.drop 1) (c.position + 1) 0
      return (.str (textOf codes), after)
    else if c.atChar '\x7b' then
      let c := (c.skip 1).skipSpaces
      if c.atChar '\x7d' then .ok (.obj [], c.skip 1)
      else do
        let (fields, after) ← readFields fuel c
        return (.obj (Assoc.ofPairs fields), after)
    else if c.atChar '[' then
      let c := (c.skip 1).skipSpaces
      if c.atChar ']' then .ok (.arr [], c.skip 1)
      else do
        let (items, after) ← readItems fuel c
        return (.arr items, after)
    else
      match readWord c with
      | some found => .ok found
      | none => readNumber c

/-- Reads the items of an array up to its closing bracket. -/
def readItems : Nat → Cursor → Reading (List Json × Cursor)
  | 0, c => refuse .expectingValue c.position
  | fuel + 1, c => do
    let (item, c) ← readValue fuel c
    let c := c.skipSpaces
    if c.atChar ']' then return ([item], c.skip 1)
    else if c.atChar ',' then
      let (items, after) ← readItems fuel (c.skip 1).skipSpaces
      return (item :: items, after)
    else refuse .expectingComma c.position

/-- Reads the fields of an object up to its closing bracket. -/
def readFields : Nat → Cursor → Reading (List (String × Json) × Cursor)
  | 0, c => refuse .expectingValue c.position
  | fuel + 1, c => do
    if !c.atChar '"' then refuse .expectingName c.position
    let (key, c) ← readText c.position (c.rest.drop 1) (c.position + 1) 0
    let c := c.skipSpaces
    if !c.atChar ':' then refuse .expectingColon c.position
    let (value, c) ← readValue fuel (c.skip 1).skipSpaces
    let c := c.skipSpaces
    if c.atChar '\x7d' then return ([(textOf key, value)], c.skip 1)
    else if c.atChar ',' then
      let (fields, after) ← readFields fuel (c.skip 1).skipSpaces
      return ((textOf key, value) :: fields, after)
    else refuse .expectingComma c.position

end

/-- The value that a whole text writes. -/
def ofCodePoints (codes : List Nat) : Reading Json := do
  let start := (⟨0, codes⟩ : Cursor).skipSpaces
  let (value, after) ← readValue (codes.length + 1) start
  let after := after.skipSpaces
  if after.rest.isEmpty then return value else refuse .extraData after.position

/-- The value that a text writes. A text with a byte order mark is refused. -/
def ofText (text : String) : Reading Json :=
  match text.toList.map Char.toNat with
  | 0xfeff :: _ => refuse .byteOrderMark 0
  | codes => ofCodePoints codes

/-- The line and column of a position, both counted from one. -/
def lineColumn (codes : List Nat) (position : Nat) : Nat × Nat :=
  let before := codes.take position
  (before.count 10 + 1, (before.reverse.takeWhile (· != 10)).length + 1)

end RandomTables.Json
