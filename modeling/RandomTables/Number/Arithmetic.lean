-- SUMMARY: Rounding and remainders of doubles, computed exactly before one final rounding.
import RandomTables.Error
import RandomTables.Number.Binary

/-!
# Arithmetic

Rounding to integers goes through exact integers: an infinite argument overflows and not-a-number
has no integer value. A remainder has the sign of the divisor.
-/
namespace RandomTables.Number

/-- Why a double has no integer value. -/
def noInteger : Double → Fault
  | .nan => .invalidValue
  | _ => .overflow

/-- The greatest integer that is at most a double. -/
def floorInt (x : Float) : Except Failure Int :=
  let d := Double.ofFloat x
  match d.floor? with
  | some n => .ok n
  | none => .error (.fault (noInteger d))

/-- The least integer that is at least a double. -/
def ceilInt (x : Float) : Except Failure Int := (floorInt (-x)).map (- ·)

/-- A double without its fraction. -/
def truncateInt (x : Float) : Except Failure Int :=
  let d := Double.ofFloat x
  match d.truncate? with
  | some n => .ok n
  | none => .error (.fault (noInteger d))

def floor (x : Float) : Except Failure Float := (floorInt x).map ofInt

def ceil (x : Float) : Except Failure Float := (ceilInt x).map ofInt

/-- The absolute value of the first double with the sign of the second. -/
def copySign (x y : Float) : Float :=
  if (Double.ofFloat y).isNegative then -x.abs else x.abs

/-- Ten to a power as a double. A power beyond all doubles overflows; one below them is zero. -/
def tenPow (digits : Int) : Except Failure Float :=
  if 308 < digits then .error (.fault .overflow)
  else if 0 ≤ digits then .ok (ofInt (tenTo digits.toNat))
  else if digits < -400 then .ok 0
  else .ok (ofRatio false 1 (tenTo (-digits).toNat))

/-- A double rounded to a number of decimal digits, a half away from zero. -/
def roundTo (x : Float) (digits : Int) : Except Failure Float := do
  let factor ← tenPow digits
  let whole ← floor (x.abs * factor + 0.5)
  if factor == 0 then throw (.fault .zeroDivision)
  return copySign whole x / factor

/-- The remainder of a division that truncates. -/
def truncatedRemainder (x y : Float) : Float :=
  match Double.ofFloat x, Double.ofFloat y with
  | .finite negative m e, .finite _ n f =>
    let low := min e f
    ofMantissa negative ((m * twoTo (e - low).toNat) % (n * twoTo (f - low).toNat)) low
  | .finite .., .infinite _ => x
  | _, _ => nan

/-- The remainder with the sign of the divisor. -/
def remainder (x y : Float) : Float :=
  let r := truncatedRemainder x y
  if r == 0 then copySign 0 y
  else if (r < 0) != (y < 0) then r + y
  else r

end RandomTables.Number
