-- SUMMARY: The Mersenne twister with a state of 624 words of 32 bits.
import RandomTables.Number.Power

/-!
# Mersenne twister

The generator MT19937, seeded from an integer of any size by its 32-bit words. Each word drawn is
one tempered word of the state; when all are used up the state is renewed as a whole.
-/
namespace RandomTables

structure Twister where
  words : Array UInt32
  /-- The next word to use. -/
  next : Nat

namespace Twister

def size : Nat := 624

def word (words : Array UInt32) (i : Nat) : UInt32 := words.getD i 0

/-- The state that a single word seeds. -/
def ofWord (seed : UInt32) : Array UInt32 :=
  (List.range (size - 1)).foldl
    (fun words i =>
      let last := word words i
      words.push ((1812433253 : UInt32) * (last ^^^ (last >>> 30)) + UInt32.ofNat (i + 1)))
    #[seed]

/-- Moves to the next place of the state; the last place is copied to the first. -/
def advance (words : Array UInt32) (i : Nat) : Array UInt32 × Nat :=
  if size ≤ i + 1 then (words.setIfInBounds 0 (word words (size - 1)), 1) else (words, i + 1)

/-- One word of the state mixed with the word before it. -/
def mixed (words : Array UInt32) (i : Nat) (factor : UInt32) : UInt32 :=
  let last := word words (i - 1)
  word words i ^^^ ((last ^^^ (last >>> 30)) * factor)

/-- Mixes the words of a key into the state, for a number of steps. -/
def mixKey (key : Array UInt32) : Nat → Array UInt32 × Nat × Nat → Array UInt32 × Nat
  | 0, (words, i, _) => (words, i)
  | steps + 1, (words, i, j) =>
    let mixedWord := mixed words i 1664525 + word key j + UInt32.ofNat j
    let (words, i) := advance (words.setIfInBounds i mixedWord) i
    mixKey key steps (words, i, if key.size ≤ j + 1 then 0 else j + 1)

/-- Mixes the state with itself, for a number of steps. -/
def mixSelf : Nat → Array UInt32 × Nat → Array UInt32
  | 0, (words, _) => words
  | steps + 1, (words, i) =>
    let mixedWord := mixed words i 1566083941 - UInt32.ofNat i
    mixSelf steps (advance (words.setIfInBounds i mixedWord) i)

/-- The generator that a key of words seeds. -/
def ofKey (key : Array UInt32) : Twister :=
  let mixed := mixKey key (max size key.size) (ofWord 19650218, 1, 0)
  ⟨(mixSelf (size - 1) mixed).setIfInBounds 0 0x80000000, size⟩

/-- The 32-bit words of a number, the least significant first. -/
def wordsOf : Nat → Nat → List UInt32
  | 0, n => [UInt32.ofNat n]
  | fuel + 1, n =>
    let more := if n < Number.twoTo 32 then [] else wordsOf fuel (n / Number.twoTo 32)
    UInt32.ofNat n :: more

/-- The generator that an integer seeds. The sign makes no difference. -/
def ofSeed (seed : Int) : Twister :=
  ofKey (wordsOf (seed.natAbs.log2 / 32 + 1) seed.natAbs).toArray

/-- The state after all its words have been used. -/
def renew (words : Array UInt32) : Array UInt32 :=
  (List.range size).foldl
    (fun words i =>
      let y := (word words i &&& 0x80000000) ||| (word words ((i + 1) % size) &&& 0x7fffffff)
      let twist : UInt32 := if y &&& 1 = 1 then 0x9908b0df else 0
      words.setIfInBounds i (word words ((i + 397) % size) ^^^ (y >>> 1) ^^^ twist))
    words

def temper (y : UInt32) : UInt32 :=
  let y := y ^^^ (y >>> 11)
  let y := y ^^^ ((y <<< 7) &&& 0x9d2c5680)
  let y := y ^^^ ((y <<< 15) &&& 0xefc60000)
  y ^^^ (y >>> 18)

/-- Draws 32 bits. -/
def draw (t : Twister) : UInt32 × Twister :=
  let t := if size ≤ t.next then ⟨renew t.words, 0⟩ else t
  (temper (word t.words t.next), ⟨t.words, t.next + 1⟩)

/-- Draws a number of bits: whole words, the least significant first, of the last one the high
bits. -/
def bits : Nat → Nat → Twister → Nat × Twister
  | 0, _, t => (0, t)
  | fuel + 1, count, t =>
    let (w, t) := t.draw
    if count ≤ 32 then (w.toNat / Number.twoTo (32 - count), t)
    else
      let (high, t) := bits fuel (count - 32) t
      (w.toNat + Number.twoTo 32 * high, t)

/-- Draws a number below a bound, by drawing as many bits as the bound has until they are below it.
After a thousand failures, which no seed is known to reach, the bits are reduced. -/
def below : Nat → Nat → Twister → Nat × Twister
  | 0, bound, t =>
    let (r, t) := bits (bound.log2 + 1) (bound.log2 + 1) t
    (r % bound, t)
  | fuel + 1, bound, t =>
    let (r, t) := bits (bound.log2 + 1) (bound.log2 + 1) t
    if r < bound then (r, t) else below fuel bound t

end Twister

end RandomTables
