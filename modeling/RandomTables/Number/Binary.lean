-- SUMMARY: Doubles as mantissa and exponent, and the double nearest to a fraction.
import RandomTables.Number.Power

/-!
# Doubles

A finite double is `mantissa * 2 ^ exponent` with a sign. Every conversion between doubles, integers
and decimal text goes through this form in exact integer arithmetic, and `ofRatio` is the one place
where a result is rounded: to the nearest double, a tie to the even mantissa.
-/
namespace RandomTables.Number

/-- What the bits of a double stand for. -/
inductive Double where
  | nan
  | infinite (negative : Bool)
  | finite (negative : Bool) (mantissa : Nat) (exponent : Int)
  deriving DecidableEq, Repr

/-- The value that the bits of a double stand for. -/
def Double.ofBits (bits : Nat) : Double :=
  let negative := decide (bits / twoTo 63 % 2 = 1)
  let field : Nat := bits / twoTo 52 % twoTo 11
  let fraction : Nat := bits % twoTo 52
  if field = 2047 then (if fraction = 0 then .infinite negative else .nan)
  else if field = 0 then .finite negative fraction (-1074)
  else .finite negative (fraction + twoTo 52) (field - 1075)

/-- The value of a double. -/
def Double.ofFloat (x : Float) : Double := .ofBits x.toBits.toNat

/-- A quotient rounded to the nearest integer, a tie to the even one. -/
def roundDiv (num den : Nat) : Nat :=
  let q := num / den
  let r := num % den
  if 2 * r < den then q
  else if den < 2 * r then q + 1
  else if q % 2 = 0 then q else q + 1

/-- The fraction `num / den` divided by a power of two, as a fraction. -/
def divTwoPow (num den : Nat) (e : Int) : Nat × Nat :=
  if 0 ≤ e then (num, den * twoTo e.toNat) else (num * twoTo (-e).toNat, den)

/-- The exponent at which the mantissa of a positive fraction has 53 bits, or the least exponent. -/
def exponentFor (num den : Nat) : Int :=
  let e : Int := (num.log2 : Int) - den.log2 - 53
  let (n, d) := divTwoPow num den e
  max (-1074) (if twoTo 53 ≤ n / d then e + 1 else e)

/-- The bits of the double nearest to a fraction, without its sign. -/
def bitsOfRatio (num den : Nat) : Nat :=
  if num = 0 then 0
  else
    let e := exponentFor num den
    let (n, d) := divTwoPow num den e
    min ((e + 1074).toNat * twoTo 52 + roundDiv n d) (2047 * twoTo 52)

/-- The double nearest to a fraction with a sign. -/
def ofRatio (negative : Bool) (num den : Nat) : Float :=
  Float.ofBits (UInt64.ofNat ((if negative then twoTo 63 else 0) + bitsOfRatio num den))

/-- The double nearest to `mantissa * 2 ^ exponent` with a sign. -/
def ofMantissa (negative : Bool) (mantissa : Nat) (exponent : Int) : Float :=
  if 0 ≤ exponent then ofRatio negative (mantissa * twoTo exponent.toNat) 1
  else ofRatio negative mantissa (twoTo (-exponent).toNat)

/-- The double nearest to an integer. -/
def ofInt (n : Int) : Float := ofRatio (decide (n < 0)) n.natAbs 1

/-- Whether an integer is too large for a finite double. -/
def intOverflows (n : Int) : Bool := 2047 * twoTo 52 ≤ bitsOfRatio n.natAbs 1

def nan : Float := Float.ofBits 0x7ff8000000000000

/-- Infinity with a sign. -/
def infinity (negative : Bool) : Float :=
  Float.ofBits (if negative then 0xfff0000000000000 else 0x7ff0000000000000)

/-- An absolute value with a sign. -/
def signed (negative : Bool) (n : Nat) : Int := if negative then -(n : Int) else n

/-- The integer that a finite double equals, if it equals one. -/
def Double.integer? : Double → Option Int
  | .finite negative m e =>
    if 0 ≤ e then some (signed negative (m * twoTo e.toNat))
    else if m % twoTo (-e).toNat = 0 then some (signed negative (m / twoTo (-e).toNat))
    else none
  | _ => none

/-- The greatest integer that is at most a finite double. -/
def Double.floor? : Double → Option Int
  | .finite negative m e =>
    if 0 ≤ e then some (signed negative (m * twoTo e.toNat))
    else some ((signed negative m).fdiv (twoTo (-e).toNat))
  | _ => none

/-- A finite double without its fraction. -/
def Double.truncate? : Double → Option Int
  | .finite negative m e =>
    if 0 ≤ e then some (signed negative (m * twoTo e.toNat))
    else some (signed negative (m / twoTo (-e).toNat))
  | _ => none

def Double.isNegative : Double → Bool
  | .finite negative _ _ => negative
  | .infinite negative => negative
  | .nan => false

end RandomTables.Number
