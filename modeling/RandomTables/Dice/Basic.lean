-- SUMMARY: Dice specifications and their notation.
import RandomTables.Number.Reading
import RandomTables.Text.Basic

/-!
# Dice

    dice := count? 'd' sides '!'? ('k' ('h' | 'l')? keep)? (('+' | '-' | '*') modifier)?

Letters count in either case and blanks are allowed around the parts before `!` and the modifier.
-/
namespace RandomTables

/-- Which dice are kept. -/
inductive KeepMode where
  | highest | lowest
  deriving DecidableEq, Repr

def KeepMode.letter : KeepMode → String
  | .highest => "h"
  | .lowest => "l"

inductive ModifierOp where
  | add | subtract | multiply
  deriving DecidableEq, Repr

def ModifierOp.symbol : ModifierOp → String
  | .add => "+"
  | .subtract => "-"
  | .multiply => "*"

def ModifierOp.ofChar? : Char → Option ModifierOp
  | '+' => some .add
  | '-' => some .subtract
  | '*' => some .multiply
  | _ => none

def ModifierOp.apply : ModifierOp → Int → Int → Int
  | .add, total, value => total + value
  | .subtract, total, value => total - value
  | .multiply, total, value => total * value

/-- What to roll: how many dice with how many sides, whether a greatest face rolls another die,
which dice to keep, and what to do with their sum. -/
structure DiceFormula where
  count : Nat
  sides : Nat
  exploding : Bool := false
  keep : Option (KeepMode × Nat) := none
  modifier : Option (ModifierOp × Nat) := none
  /-- How it was written. -/
  written : String := ""
  deriving DecidableEq, Repr

namespace DiceFormula

/-- The text of a specification. -/
def text (spec : DiceFormula) : String :=
  if spec.written.isEmpty then toString spec.count ++ "d" ++ toString spec.sides else spec.written

/-! ## Notation -/

/-- The parts of a dice notation, as they are written. -/
structure Form where
  count : List Char
  sides : List Char
  exploding : Bool
  keep : Option (KeepMode × List Char)
  modifier : Option (ModifierOp × List Char)
  deriving DecidableEq, Repr

def decimalsOf (cs : List Char) : List Char × List Char :=
  (cs.takeWhile Text.isDecimal, cs.dropWhile Text.isDecimal)

/-- Whether a character is the letter for keeping dice; the sign for kelvin has the same lower
case. -/
def isKeepLetter (c : Char) : Bool := c == 'k' || c == 'K' || c.toNat == 0x212a

/-- An optional part of the notation: nothing, or a part that has to be complete. -/
def keepPart (cs : List Char) : Option (Option (KeepMode × List Char) × List Char) :=
  match cs with
  | [] => some (none, [])
  | c :: rest =>
    if isKeepLetter c then
      let (mode, rest) :=
        match rest with
        | d :: after =>
          if d == 'h' || d == 'H' then (KeepMode.highest, after)
          else if d == 'l' || d == 'L' then (KeepMode.lowest, after)
          else (KeepMode.highest, rest)
        | [] => (KeepMode.highest, rest)
      let (digits, after) := decimalsOf rest
      if digits.isEmpty then none else some (some (mode, digits), after)
    else some (none, cs)

/-- The modifier at the end of a notation, if there is one. -/
def modifierPart (cs : List Char) : Option (Option (ModifierOp × List Char)) :=
  match Text.trimStart cs with
  | [] => some none
  | c :: rest =>
    match ModifierOp.ofChar? c with
    | none => none
    | some op =>
      let (digits, after) := decimalsOf (Text.trimStart rest)
      if digits.isEmpty || !(Text.trimStart after).isEmpty then none else some (some (op, digits))

/-- The parts of a text that is a dice notation. -/
def form? (cs : List Char) : Option Form :=
  let (count, rest) := decimalsOf (Text.trimStart cs)
  match Text.trimStart rest with
  | [] => none
  | d :: rest =>
    if d == 'd' || d == 'D' then
      let (sides, rest) := decimalsOf (Text.trimStart rest)
      if sides.isEmpty then none
      else
        let (exploding, rest) :=
          match rest with
          | '!' :: after => (true, after)
          | other => (false, other)
        (keepPart rest).bind fun (keep, rest) =>
          (modifierPart rest).map fun modifier => ⟨count, sides, exploding, keep, modifier⟩
    else none

/-- The number of an optional part. -/
def partValue {α : Type} : Option (α × List Char) → Except Failure (Option (α × Nat))
  | none => .ok none
  | some (a, digits) => (Number.readDigits digits).map fun n => some (a, n)

/-- The specification that a text writes. -/
def parse (cs : List Char) : Except Failure DiceFormula := do
  let refuseIf (wrong : Bool) (cause : ParseCause) : Except Failure Unit :=
    if wrong then .error (.parse cause (String.ofList cs) none) else .ok ()
  match form? cs with
  | none => .error (.parse .invalidDice (String.ofList cs) none)
  | some form =>
    let count ← if form.count.isEmpty then pure 1 else Number.readDigits form.count
    let sides ← Number.readDigits form.sides
    refuseIf (count < 1) .noDice
    refuseIf (sides < 1) .noSides
    let keep ← partValue form.keep
    refuseIf (keep.any fun (_, n) => n < 1) .nothingKept
    let modifier ← partValue form.modifier
    return {
      count, sides, exploding := form.exploding, keep, modifier
      written := String.ofList (Text.trim cs) }

end DiceFormula

end RandomTables
