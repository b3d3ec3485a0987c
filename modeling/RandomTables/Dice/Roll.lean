-- SUMMARY: Rolling dice: the faces in the order rolled, what is kept, and the total.
import RandomTables.Dice.Basic
import RandomTables.Json.Basic
import RandomTables.Random.Source

/-!
# Rolling dice

All dice of a specification are rolled first. If they explode, every greatest face adds one more die
as long as the cap allows; added dice may explode again. Kept dice are listed from the best to the
worst.
-/
namespace RandomTables

/-- The outcome of a roll. -/
structure DiceRoll where
  /-- The specification as text. -/
  spec : String
  total : Int
  rolls : List Int
  kept : List Int
  explosions : Nat
  modifier : Option (ModifierOp × Nat)
  deriving DecidableEq, Repr

namespace DiceFormula

section

/-! A die gives a face and the state of what it draws from afterwards. -/

variable {σ : Type} (die : σ → Int × σ)

/-- Rolls a number of dice. -/
def faces : Nat → σ → List Int × σ
  | 0, s => ([], s)
  | count + 1, s =>
    let (face, s) := die s
    let (more, s) := faces count s
    (face :: more, s)

/-- Rolls a die for each pending explosion, at most as many as the cap allows. -/
def explode (greatest : Int) : Nat → Nat → σ → List Int × σ
  | 0, _, s => ([], s)
  | _, 0, s => ([], s)
  | cap + 1, pending + 1, s =>
    let (face, s) := die s
    let pending := if face = greatest then pending + 1 else pending
    let (more, s) := explode greatest cap pending s
    (face :: more, s)

end

/-- The kept dice: all in the order rolled, or the best in order. -/
def keptOf (keep : Option (KeepMode × Nat)) (rolls : List Int) : List Int :=
  match keep with
  | none => rolls
  | some (.highest, n) => (rolls.mergeSort (fun a b => b ≤ a)).take n
  | some (.lowest, n) => (rolls.mergeSort (fun a b => a ≤ b)).take n

def sumOfFaces : List Int → Int
  | [] => 0
  | face :: rest => face + sumOfFaces rest

/-- Rolls a specification with a die that has its number of sides. -/
def rollWith {σ : Type} (spec : DiceFormula) (die : σ → Int × σ) (cap : Nat) (s : σ) :
    DiceRoll × σ :=
  let (first, s) := faces die spec.count s
  let (extra, s) :=
    if spec.exploding then explode die spec.sides cap (first.count (spec.sides : Int)) s
    else ([], s)
  let rolls := first ++ extra
  let kept := keptOf spec.keep rolls
  let total := match spec.modifier with
    | none => sumOfFaces kept
    | some (op, value) => op.apply (sumOfFaces kept) value
  (⟨spec.text, total, rolls, kept, extra.length, spec.modifier⟩, s)

/-- Rolls a specification. -/
def roll (spec : DiceFormula) (cap : Nat) (source : Source) : DiceRoll × Source :=
  spec.rollWith (Source.between 1 spec.sides) cap source

end DiceFormula

namespace DiceRoll

def listText (faces : List Int) : String :=
  "[" ++ String.intercalate ", " (faces.map toString) ++ "]"

/-- How the total came about. -/
def breakdown (r : DiceRoll) : String :=
  listText r.rolls
    ++ (if r.kept ≠ r.rolls then " keep " ++ listText r.kept else "")
    ++ (match r.modifier with
      | some (op, value) => " " ++ op.symbol ++ " " ++ toString value
      | none => "")
    ++ " = " ++ toString r.total

/-- A roll whose total can be written. -/
def checked (r : DiceRoll) : Except Failure DiceRoll :=
  if Number.isWritable r.total then .ok r else .error (.fault .invalidValue)

/-- A roll as the fields of an object. -/
def fields (r : DiceRoll) : List (String × Json) :=
  [("notation", .str r.spec), ("total", .int r.total), ("rolls", Json.ofInts r.rolls),
    ("kept", Json.ofInts r.kept), ("explosions", .int r.explosions),
    ("breakdown", .str r.breakdown)]

end DiceRoll

end RandomTables
