-- SUMMARY: Powers of two and of ten, and sums over lists.

/-!
# Powers and sums

Doubles are counted in powers of two and written in powers of ten.
-/
namespace RandomTables.Number

/-- Two to a power. -/
def twoTo (n : Nat) : Nat := Nat.pow 2 n

/-- Ten to a power. -/
def tenTo (n : Nat) : Nat := Nat.pow 10 n

theorem twoTo_succ (n : Nat) : twoTo (n + 1) = twoTo n * 2 := rfl

theorem tenTo_succ (n : Nat) : tenTo (n + 1) = tenTo n * 10 := rfl

/-- The sum of a number for every item of a list. -/
def sumOf {α : Type _} (f : α → Nat) : List α → Nat
  | [] => 0
  | a :: rest => f a + sumOf f rest

end RandomTables.Number
