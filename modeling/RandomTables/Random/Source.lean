-- SUMMARY: Sources of random numbers, scripted or seeded, and draws from them that can fail.
import RandomTables.Error
import RandomTables.Random.Twister

/-!
# Random sources

Everything random is one of two draws: a fraction of one, or an integer between two bounds. A
scripted source answers from a list of millionths, over and over; a seeded source is a twister.
-/
namespace RandomTables

/-- A fraction of two natural numbers. -/
structure Fraction where
  num : Nat
  den : Nat
  deriving DecidableEq, Repr

/-- The double nearest to a fraction whose parts have at most 53 bits. -/
def Fraction.toFloat (f : Fraction) : Float := Float.ofNat f.num / Float.ofNat f.den

/-- Where random numbers come from. -/
inductive Source where
  /-- Millionths, used from the given place on and from the start again. -/
  | scripted (draws : Array Nat) (next : Nat)
  | seeded (state : Twister)

namespace Source

/-- A scripted source; without draws it always answers zero. -/
def ofDraws (draws : List Nat) : Source :=
  .scripted (if draws.isEmpty then #[0] else draws.toArray) 0

def ofSeed (seed : Int) : Source := .seeded (Twister.ofSeed seed)

/-- The next millionths of a script. -/
def nextMillionths (draws : Array Nat) (next : Nat) : Nat := draws.getD (next % draws.size) 0

/-- Draws a fraction of one. -/
def fraction : Source → Fraction × Source
  | .scripted draws next => (⟨nextMillionths draws next, 1000000⟩, .scripted draws (next + 1))
  | .seeded t =>
    let (a, t) := t.draw
    let (b, t) := t.draw
    let high := a.toNat / Number.twoTo 5
    let low := b.toNat / Number.twoTo 6
    (⟨high * Number.twoTo 26 + low, Number.twoTo 53⟩, .seeded t)

/-- Draws an integer from the first bound up to the second, both included. -/
def between (low high : Int) : Source → Int × Source
  | .scripted draws next =>
    (low + ((nextMillionths draws next : Int) * (high - low + 1)).fdiv 1000000,
      .scripted draws (next + 1))
  | .seeded t =>
    let (r, t) := Twister.below 1000 (high - low + 1).toNat t
    (low + r, .seeded t)

end Source

/-! ## Bounds

Whatever state a source is in, an integer that is drawn from one bound up to another lies between
the two, as long as a script holds fractions of one. -/

theorem Twister.below_lt {bound : Nat} (h : 0 < bound) (fuel : Nat) (t : Twister) :
    (below fuel bound t).1 < bound := by
  induction fuel generalizing t with
  | zero => exact Nat.mod_lt _ h
  | succ fuel ih =>
      rw [below]
      rcases bits (bound.log2 + 1) (bound.log2 + 1) t with ⟨r, t⟩
      dsimp only
      split
      · assumption
      · exact ih t

namespace Source

/-- A script holds millionths of one. -/
def Proper : Source → Prop
  | .scripted draws _ => ∀ k ∈ draws, k < 1000000
  | .seeded _ => True

section

variable {source : Source} (h : source.Proper)
include h

theorem proper_fraction : source.fraction.2.Proper := by
  cases source with
  | scripted draws next => exact h
  | seeded t => trivial

theorem proper_between (low high : Int) : (source.between low high).2.Proper := by
  cases source with
  | scripted draws next => exact h
  | seeded t => trivial

end

theorem nextMillionths_lt {draws : Array Nat} (h : ∀ k ∈ draws, k < 1000000) (next : Nat) :
    nextMillionths draws next < 1000000 := by
  rw [nextMillionths, Array.getD]
  split
  · exact h _ (Array.getElem_mem _)
  · omega

theorem between_bounds {source : Source} (hsource : source.Proper) {low high : Int}
    (h : low ≤ high) :
    low ≤ (source.between low high).1 ∧ (source.between low high).1 ≤ high := by
  cases source with
  | scripted draws next =>
      have hdraw : (nextMillionths draws next : Int) < 1000000 := by
        have hless := nextMillionths_lt hsource next
        omega
      have hsize : 0 < high - low + 1 := by omega
      have hnonneg : 0 ≤ (nextMillionths draws next : Int) * (high - low + 1) :=
        Int.mul_nonneg (Int.natCast_nonneg _) (Int.le_of_lt hsize)
      have hless : (nextMillionths draws next : Int) * (high - low + 1) <
          (high - low + 1) * 1000000 := by
        rw [Int.mul_comm (high - low + 1)]
        exact Int.mul_lt_mul_of_pos_right hdraw hsize
      have hpart := Int.ediv_lt_of_lt_mul (by decide) hless
      have hpos := Int.ediv_nonneg hnonneg (by decide : (0 : Int) ≤ 1000000)
      rw [between, Int.fdiv_eq_ediv_of_nonneg _ (by decide)]
      omega
  | seeded t =>
      have hless := Twister.below_lt (by omega : 0 < (high - low + 1).toNat) 1000 t
      rw [between]
      dsimp only
      omega

end Source

/-! ## Draws

A draw takes random numbers from a source and gives a value or fails. Numbers that were taken before
a failure are used up. -/

/-- A computation on a random source that can fail. -/
abbrev Draw := ExceptT Failure (StateM Source)

namespace Draw

/-- A draw that cannot fail. -/
def ofSource {α : Type} (f : Source → α × Source) : Draw α := fun source =>
  let (a, source) := f source
  (.ok a, source)

/-- Draws a fraction of one. -/
def fraction : Draw Fraction := ofSource Source.fraction

/-- Draws an integer from the first bound up to the second, both included. -/
def between (low high : Int) : Draw Int := ofSource (Source.between low high)

/-- A result that needs no random number. -/
def lift {α : Type} : Except Failure α → Draw α
  | .ok a => pure a
  | .error f => throw f

end Draw

end RandomTables
