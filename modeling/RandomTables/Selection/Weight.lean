-- SUMMARY: Weights: doubles as multiples of the least one, and draws in proportion to them.
import RandomTables.Number.Binary
import RandomTables.Random.Source

/-!
# Weights

A draw adds up the weights from the left, marks a part of the total by a fraction of one, and takes
the first item whose weight reaches past the mark. This makes sense for any numbers that can be
added, compared and taken a part of; `Weight` is the one that programs run with, where every sum and
part is rounded to the nearest double.
-/
namespace RandomTables

/-- Numbers that weights can be. -/
class Measure (W : Type) where
  zero : W
  add : W → W → W
  less : W → W → Bool
  /-- The part of a total that a fraction of one marks. -/
  part : Fraction → W → W

namespace Measure

variable {W : Type} [Measure W] {α : Type}

def isPositive (w : W) : Bool := less zero w

/-- The sum of some weights, from the left. -/
def total (weights : List W) : W := weights.foldl add zero

/-- The first item whose weight, added to those before it, exceeds the mark; otherwise the last item
of positive weight. -/
def reach (mark : W) (last : α × W) (sum : W) : List (α × W) → α × W
  | [] => last
  | (a, w) :: rest =>
    if isPositive w then
      if less mark (add sum w) then (a, w) else reach mark (a, w) (add sum w) rest
    else reach mark last sum rest

/-- Draws an item in proportion to the weights. -/
def pick {α : Type} (items : List (α × W)) : Draw (α × W) :=
  match items with
  | [] => throw (.selection .zeroWeight)
  | first :: _ => do
    let sum := total (items.map (·.2))
    if isPositive sum then
      let fraction ← Draw.fraction
      return reach (part fraction sum) first zero items
    else throw (.selection .zeroWeight)

end Measure

/-! ## Doubles -/

/-- A double as a multiple of the least positive double. -/
structure Weight where
  units : Int
  deriving DecidableEq, Repr

namespace Weight

/-- The units of one. -/
def unitsOfOne : Nat := Number.twoTo 1074

/-- The units of infinity, beyond all finite doubles. -/
def infinite : Nat := Number.twoTo 2098

/-- The units of the double nearest to a quotient of units, a tie to the even mantissa. -/
def nearest (num den : Nat) : Nat :=
  let size := num / den
  if size < Number.twoTo 53 then Number.roundDiv num den
  else
    let shift := size.log2 - 52
    min (Number.roundDiv num (den * Number.twoTo shift) * Number.twoTo shift) infinite

/-- The double nearest to an integral number of units. -/
def round (units : Int) : Weight := ⟨Number.signed (decide (units < 0)) (nearest units.natAbs 1)⟩

def ofFloat (x : Float) : Weight :=
  match Number.Double.ofFloat x with
  | .finite negative m e => ⟨Number.signed negative (m * Number.twoTo (e + 1074).toNat)⟩
  | .infinite negative => ⟨Number.signed negative infinite⟩
  | .nan => ⟨0⟩

def toFloat (w : Weight) : Float :=
  Number.ofRatio (decide (w.units < 0)) w.units.natAbs unitsOfOne

/-- The double nearest to an integer, which must not be beyond all of them. -/
def ofInt (n : Int) : Except Failure Weight :=
  let w := round (n * unitsOfOne)
  if infinite ≤ w.units.natAbs then .error (.fault .overflow) else .ok w

def one : Weight := ⟨unitsOfOne⟩

/-- The fraction is rounded first and the product afterwards. A part of infinity is infinite. -/
def part (f : Fraction) (total : Weight) : Weight :=
  if infinite ≤ total.units.natAbs then total
  else
    let share := nearest (f.num * unitsOfOne) f.den
    ⟨Number.signed (decide (total.units < 0)) (nearest (share * total.units.natAbs) unitsOfOne)⟩

instance : Measure Weight where
  zero := ⟨0⟩
  add a b := round (a.units + b.units)
  less a b := a.units < b.units
  part := part

end Weight

end RandomTables
