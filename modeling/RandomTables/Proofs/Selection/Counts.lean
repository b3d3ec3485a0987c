-- SUMMARY: Integers keep their order when rounded, and those of 53 bits are weights as they are.
import Mathlib
import RandomTables.Proofs.Selection.Weights

/-!
# Numbers of rolls as weights

Around a number of units the doubles lie at a distance that is a power of two. Rounding to the
nearest one keeps the order of the numbers, since a power of two lies between numbers with different
distances, and keeps the multiples of the distance. So the weight of a range is the number of its
rolls as long as that is at most two to the power of 53, and there is one bound from which on ranges
are wider than all weights.
-/
namespace RandomTables

/-! ## Rounded quotients -/

namespace Number

theorem twoTo_add (m n : Nat) : twoTo (m + n) = twoTo m * twoTo n := Nat.pow_add 2 m n

theorem twoTo_le {m n : Nat} (h : m ≤ n) : twoTo m ≤ twoTo n :=
  Nat.pow_le_pow_right Nat.two_pos h

theorem twoTo_lt {m n : Nat} (h : m < n) : twoTo m < twoTo n :=
  Nat.pow_lt_pow_right (Nat.lt_succ_self 1) h

theorem roundDiv_mul (n : Nat) {den : Nat} (hden : 0 < den) : roundDiv (n * den) den = n := by
  simp [roundDiv, Nat.mul_div_cancel n hden, hden]

theorem roundDiv_mono {m n : Nat} (den : Nat) (h : m ≤ n) : roundDiv m den ≤ roundDiv n den := by
  rcases Nat.eq_or_lt_of_le (Nat.div_le_div_right (c := den) h) with hsame | hless
  · have hremainders : m % den ≤ n % den := by
      have hm := Nat.div_add_mod m den
      have hn := Nat.div_add_mod n den
      rw [hsame] at hm
      omega
    unfold roundDiv
    dsimp only
    rw [hsame]
    split_ifs <;> omega
  · have hup : roundDiv m den ≤ m / den + 1 := by
      unfold roundDiv
      dsimp only
      split_ifs <;> omega
    have hdown := div_le_roundDiv n den
    omega

end Number

/-! ## Doubles around a number -/

namespace Weight

open Number

/-- The distance of the doubles around a number of units. -/
def spacing (n : Nat) : Nat := twoTo (n.log2 - 52)

theorem spacing_pos (n : Nat) : 0 < spacing n := twoTo_pos _

theorem lt_spacing (n : Nat) : n < twoTo 53 * spacing n := by
  have hlog : n < twoTo (n.log2 + 1) := Nat.lt_log2_self
  have hpower : twoTo (n.log2 + 1) ≤ twoTo (53 + (n.log2 - 52)) := twoTo_le (by omega)
  rw [twoTo_add 53] at hpower
  exact Nat.lt_of_lt_of_le hlog hpower

theorem spacing_le {n : Nat} (h : 52 < n.log2) : twoTo 52 * spacing n ≤ n := by
  have hzero : n ≠ 0 := by
    rintro rfl
    exact absurd h (by decide)
  rw [spacing, ← twoTo_add, Nat.add_sub_cancel' h.le]
  exact Nat.log2_self_le hzero

theorem nearest_eq (n : Nat) :
    nearest n 1 = min (roundDiv n (spacing n) * spacing n) infinite := by
  unfold nearest
  dsimp only
  rw [Nat.div_one, Nat.one_mul]
  split
  · rename_i hsmall
    have hlog : ¬ 52 < n.log2 := fun hlarge => by
      have hpower : twoTo 53 ≤ twoTo (52 + (n.log2 - 52)) := twoTo_le (by omega)
      rw [twoTo_add] at hpower
      exact absurd hsmall (Nat.not_lt.2 (hpower.trans (spacing_le hlarge)))
    have hspacing : spacing n = 1 := congrArg twoTo (by omega : n.log2 - 52 = 0)
    have hround : roundDiv n 1 = n := by simpa using roundDiv_mul n Nat.one_pos
    rw [hspacing, Nat.mul_one, hround]
    exact (Nat.min_eq_left (hsmall.le.trans (twoTo_le (by omega)))).symm
  · rfl

/-- A greater number is not rounded to a smaller one. -/
theorem nearest_mono {m n : Nat} (h : m ≤ n) : nearest m 1 ≤ nearest n 1 := by
  rw [nearest_eq, nearest_eq]
  refine min_le_min_right infinite ?_
  have hlogs : m.log2 ≤ n.log2 := by
    rw [Nat.log2_eq_log_two, Nat.log2_eq_log_two]
    exact Nat.log_mono_right h
  by_cases hsame : m.log2 - 52 = n.log2 - 52
  · have hspacing : spacing m = spacing n := congrArg twoTo hsame
    rw [hspacing]
    exact Nat.mul_le_mul_right _ (roundDiv_mono _ h)
  · -- a power of two lies between the two
    have hm : roundDiv m (spacing m) ≤ twoTo 53 := by
      rw [← roundDiv_mul (twoTo 53) (spacing_pos m)]
      exact roundDiv_mono _ (lt_spacing m).le
    have hn : twoTo 52 ≤ roundDiv n (spacing n) := by
      rw [← roundDiv_mul (twoTo 52) (spacing_pos n)]
      exact roundDiv_mono _ (spacing_le (by omega))
    calc roundDiv m (spacing m) * spacing m
        ≤ twoTo 53 * spacing m := Nat.mul_le_mul_right _ hm
      _ = twoTo (53 + (m.log2 - 52)) := (twoTo_add _ _).symm
      _ ≤ twoTo (52 + (n.log2 - 52)) := twoTo_le (by omega)
      _ = twoTo 52 * spacing n := twoTo_add _ _
      _ ≤ roundDiv n (spacing n) * spacing n := Nat.mul_le_mul_right _ hn

/-- A multiple of the distance of the doubles around it is a double. -/
theorem nearest_of_dvd {n : Nat} (hdvd : spacing n ∣ n) (hfinite : n ≤ infinite) :
    nearest n 1 = n := by
  have hround := roundDiv_mul (n / spacing n) (spacing_pos n)
  rw [Nat.div_mul_cancel hdvd] at hround
  rw [nearest_eq, hround, Nat.div_mul_cancel hdvd, Nat.min_eq_left hfinite]

/-- Numbers up to two to the power of 53 are doubles, and so are their multiples by a power of two. -/
theorem nearest_mul_twoTo {n k : Nat} (h : n ≤ twoTo 53) (hk : 53 + k ≤ 2098) :
    nearest (n * twoTo k) 1 = n * twoTo k := by
  have hpower : n * twoTo k ≤ twoTo (53 + k) := by
    rw [twoTo_add]
    exact Nat.mul_le_mul_right _ h
  refine nearest_of_dvd ?_ (hpower.trans (twoTo_le hk))
  rcases Nat.eq_or_lt_of_le h with rfl | hless
  · rw [← twoTo_add]
    have hlog : (twoTo (53 + k)).log2 = 53 + k := Nat.log2_two_pow
    rw [spacing, hlog]
    exact Nat.pow_dvd_pow 2 (by omega)
  · have hlog : (n * twoTo k).log2 < 53 + k := by
      by_cases hzero : n * twoTo k = 0
      · rw [hzero, Nat.log2_zero]
        omega
      · refine (Nat.log2_lt hzero).2 ?_
        change _ < twoTo (53 + k)
        rw [twoTo_add]
        exact Nat.mul_lt_mul_of_pos_right hless (twoTo_pos _)
    exact Nat.dvd_mul_left_of_dvd (Nat.pow_dvd_pow 2 (by omega)) n

/-! ## Numbers of rolls -/

/-- The weight of a number of rolls. -/
def ofCount (n : Nat) : Weight := ⟨(n * unitsOfOne : Nat)⟩

theorem nearest_units {n : Nat} (h : n ≤ twoTo 53) :
    nearest (n * unitsOfOne) 1 = n * unitsOfOne := by
  rw [unitsOfOne]
  exact nearest_mul_twoTo h (by omega)

theorem round_units_natCast (n : Nat) : round n = ⟨nearest n 1⟩ := by
  have hunits := round_units (Int.natCast_nonneg n)
  rw [Int.natAbs_natCast] at hunits
  exact congrArg Weight.mk hunits

theorem ofInt_natCast (n : Nat) : ofInt n =
    if infinite ≤ nearest (n * unitsOfOne) 1 then .error (.fault .overflow)
    else .ok ⟨nearest (n * unitsOfOne) 1⟩ := by
  unfold ofInt
  rw [← Int.natCast_mul, round_units_natCast]
  dsimp only
  rw [Int.natAbs_natCast]

/-- As a weight, a number of rolls up to two to the power of 53 is what it is. -/
theorem ofInt_eq_ofCount {n : Nat} (h : n ≤ twoTo 53) : ofInt n = .ok (ofCount n) := by
  have hfinite : n * unitsOfOne < infinite := by
    rw [unitsOfOne, infinite]
    calc n * twoTo 1074 ≤ twoTo 53 * twoTo 1074 := Nat.mul_le_mul_right _ h
      _ = twoTo (53 + 1074) := (twoTo_add _ _).symm
      _ < twoTo 2098 := twoTo_lt (by omega)
  rw [ofInt_natCast, nearest_units h, if_neg (Nat.not_le.2 hfinite)]
  rfl

/-- The least number of rolls that is beyond all weights: it lies half way between the greatest
double and two to the power of 1024, and the tie is rounded up. -/
def tooMany : Nat := twoTo 1024 - twoTo 970

/-- Whether a number of rolls can be a weight at all depends on its size only. -/
theorem ofInt_isOk_iff {n : Nat} : (∃ w, ofInt n = .ok w) ↔ n < tooMany := by
  have hfinite : nearest ((tooMany - 1) * unitsOfOne) 1 < infinite := by decide +kernel
  have hbeyond : infinite ≤ nearest (tooMany * unitsOfOne) 1 := by decide +kernel
  rw [ofInt_natCast]
  rcases Nat.lt_or_ge n tooMany with hless | hge
  · have hnearest := nearest_mono (Nat.mul_le_mul_right unitsOfOne (Nat.le_sub_one_of_lt hless))
    rw [if_neg (Nat.not_le.2 (hnearest.trans_lt hfinite))]
    exact iff_of_true ⟨_, rfl⟩ hless
  · have hnearest := nearest_mono (Nat.mul_le_mul_right unitsOfOne hge)
    rw [if_pos (hbeyond.trans hnearest)]
    exact iff_of_false (fun ⟨_, h⟩ => nomatch h) (Nat.not_lt.2 hge)

theorem add_ofCount {m n : Nat} (h : m + n ≤ twoTo 53) :
    Measure.add (ofCount m) (ofCount n) = ofCount (m + n) := by
  change round ((m * unitsOfOne : Nat) + (n * unitsOfOne : Nat) : Int) = _
  rw [← Int.natCast_add, ← Nat.add_mul, round_units_natCast, nearest_units h]
  rfl

/-- Up to two to the power of 53, numbers of rolls are added up without rounding. -/
theorem total_ofCount {counts : List Nat} (h : counts.sum ≤ twoTo 53) :
    Measure.total (counts.map ofCount) = ofCount counts.sum := by
  have hfold : ∀ (counts : List Nat) (start : Nat), start + counts.sum ≤ twoTo 53 →
      (counts.map ofCount).foldl Measure.add (ofCount start) = ofCount (start + counts.sum) := by
    intro counts
    induction counts with
    | nil => exact fun _ _ => rfl
    | cons n rest ih =>
        intro start h
        rw [List.sum_cons, ← Nat.add_assoc] at h ⊢
        rw [List.map_cons, List.foldl_cons, add_ofCount (by omega), ih _ h]
  have hzero : (Measure.zero : Weight) = ofCount 0 := by
    rw [ofCount, Nat.zero_mul]
    rfl
  have hsum := hfold counts 0 (by rwa [Nat.zero_add])
  rw [Nat.zero_add] at hsum
  rw [Measure.total, hzero, hsum]

end Weight

end RandomTables
