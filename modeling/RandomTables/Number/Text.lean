-- SUMMARY: Doubles as decimal text: the shortest digits that read back, or ten places at most.
import RandomTables.Number.Binary

/-!
# Decimal text of doubles

`shortest` gives the fewest digits whose nearest double is the given one, and among those the
nearest to it. For each count of digits only the two neighbours of the value on that decimal grid
can qualify, so they are tried in turn.

`floatText` writes those digits; `numberText` is how a number appears in rendered text.
-/
namespace RandomTables.Number

/-- A decimal number `digits * 10 ^ exponent`. -/
structure Decimal where
  digits : Nat
  exponent : Int
  deriving DecidableEq, Repr

/-- The fraction `num / den` divided by a power of ten, as a fraction. -/
def divTenPow (num den : Nat) (e : Int) : Nat × Nat :=
  if 0 ≤ e then (num, den * tenTo e.toNat) else (num * tenTo (-e).toNat, den)

/-- The exponent of the first decimal digit of a positive `mantissa * 2 ^ exponent`. -/
def leadingExponent (mantissa : Nat) (exponent : Int) : Int :=
  let reaches (p : Int) : Bool :=
    let (n, d) := divTwoPow mantissa 1 (-exponent)
    let (n, d) := divTenPow n d p
    d ≤ n
  let guess := (((mantissa.log2 : Int) + exponent) * 30103).fdiv 100000
  if reaches (guess + 1) then guess + 1
  else if reaches guess then guess
  else guess - 1

/-- The two numbers on a decimal grid around a double, kept if they read back as the double; the
nearer first, of two equally near ones the even one. -/
def gridCandidate (mantissa : Nat) (exponent : Int) (grid : Int) : Option Nat :=
  -- everything is measured in quarters of a unit in the last place
  let low := if mantissa = twoTo 52 ∧ -1074 < exponent then 4 * mantissa - 1 else 4 * mantissa - 2
  let high := 4 * mantissa + 2
  let closed := mantissa % 2 = 0
  let (n, d) := divTwoPow 1 1 (2 - exponent)
  let (n, d) := divTenPow n d grid
  let fits (c : Nat) : Bool :=
    if closed then low * n ≤ c * d ∧ c * d ≤ high * n else low * n < c * d ∧ c * d < high * n
  let value := 4 * mantissa * n
  let below := value / d
  let above := below + 1
  match fits below, fits above with
  | true, true =>
    let down := value - below * d
    let up := above * d - value
    if down < up then some below
    else if up < down then some above
    else if below % 2 = 0 then some below else some above
  | true, false => some below
  | false, true => some above
  | false, false => none

/-- The first grid with a candidate, from one digit on. -/
def shortestFrom (mantissa : Nat) (exponent : Int) (leading : Int) : Nat → Nat → Decimal
  | 0, count => ⟨mantissa, exponent - count⟩
  | fuel + 1, count =>
    let grid := leading - count
    match gridCandidate mantissa exponent grid with
    | some digits => ⟨digits, grid⟩
    | none => shortestFrom mantissa exponent leading fuel (count + 1)

/-- The fewest decimal digits that read back as the double. Seventeen always suffice. -/
def shortest (mantissa : Nat) (exponent : Int) : Decimal :=
  shortestFrom mantissa exponent (leadingExponent mantissa exponent) 18 0

/-- The decimal digits of a number without trailing zeros, and how many zeros were dropped. -/
def dropZeros (digits : List Char) : List Char × Nat :=
  let kept := (digits.reverse.dropWhile (· == '0')).reverse
  (kept, digits.length - kept.length)

/-- Decimal text: positional while the first digit stands from 10^-4 up to 10^15, otherwise with an
exponent of at least two digits. -/
def Decimal.text (d : Decimal) : String :=
  let (digits, dropped) := dropZeros (toString d.digits).toList
  -- where the point stands in the digits
  let point : Int := d.exponent + dropped + digits.length
  if -4 < point ∧ point ≤ 16 then
    if point ≤ 0 then
      String.ofList ('0' :: '.' :: List.replicate (-point).toNat '0' ++ digits)
    else if point.toNat < digits.length then
      String.ofList (digits.take point.toNat ++ '.' :: digits.drop point.toNat)
    else
      String.ofList (digits ++ List.replicate (point.toNat - digits.length) '0' ++ ['.', '0'])
  else
    let fraction := if digits.length ≤ 1 then [] else '.' :: digits.drop 1
    let power := point - 1
    let sign := if power < 0 then '-' else '+'
    let size := (toString power.natAbs).toList
    let size := if size.length < 2 then '0' :: size else size
    String.ofList (digits.take 1 ++ fraction ++ 'e' :: sign :: size)

/-- The shortest text that reads back as the double. -/
def floatText (x : Float) : String :=
  match Double.ofFloat x with
  | .nan => "nan"
  | .infinite negative => if negative then "-inf" else "inf"
  | .finite negative m e =>
    let body := if m = 0 then "0.0" else (shortest m e).text
    if negative then "-" ++ body else body

/-- A double rounded to a number of decimal places on its exact value, a tie to the even digit. -/
def roundPlaces (places : Nat) (x : Float) : Float :=
  match Double.ofFloat x with
  | .finite negative m e =>
    let (n, d) := divTwoPow (m * tenTo places) 1 (-e)
    ofRatio negative (roundDiv n d) (tenTo places)
  | _ => x

/-- A number in rendered text: an integer without a point, anything else to ten places. -/
def numberText (x : Float) : String :=
  match (Double.ofFloat x).integer? with
  | some n => toString n
  | none => floatText (roundPlaces 10 x)

end RandomTables.Number
