-- SUMMARY: The shortest decimal digits of a double are rounded to the double.
import Mathlib.Data.List.TakeWhile
import Mathlib.Tactic.LinearCombination
import RandomTables.Proofs.Number.Numeral
import RandomTables.Proofs.Number.Rounding

/-!
# The shortest digits

A grid of decimal numbers that is finer than the rounding interval of a double has a number in it, and
that of seventeen digits always is. So the search for the shortest digits ends, and what it ends with
is rounded to the double, whatever text the digits are written with.
-/
namespace RandomTables.Number

variable {m : Nat} {e : Int}

/-! ## Candidates on a grid -/

theorem Nearest.of_strict {v : ℚ} (hlow : (m - lowerReach m e) * 2 ^ e < v)
    (hhigh : v < (m + 1 / 2) * 2 ^ e) : Nearest m e v := by
  refine ⟨hlow.le, hhigh.le, fun hodd => ⟨?_, hhigh⟩⟩
  have hreach : lowerReach m e = 1 / 2 := by
    rw [lowerReach, if_neg]
    rintro ⟨rfl, -⟩
    exact absurd hodd (by decide)
  rwa [hreach] at hlow

/-- A grid number that the search takes to be rounded to the double, in quarters of a unit in the last
place. -/
def fits (m : Nat) (e : Int) (n d c : Nat) : Bool :=
  let low := if m = twoTo 52 ∧ -1074 < e then 4 * m - 1 else 4 * m - 2
  let high := 4 * m + 2
  if m % 2 = 0 then low * n ≤ c * d ∧ c * d ≤ high * n else low * n < c * d ∧ c * d < high * n

/-- The lower end of the rounding interval in quarters of a unit in the last place. -/
theorem low_cast (hpos : 0 < m) :
    ((if m = twoTo 52 ∧ -1074 < e then 4 * m - 1 else 4 * m - 2 : Nat) : ℚ) =
      4 * (m - lowerReach m e) := by
  rw [lowerReach]
  split
  · rw [Nat.cast_sub (by omega)]
    push_cast
    ring
  · rw [Nat.cast_sub (by omega)]
    push_cast
    ring

section

variable {grid : Int} {n d : Nat} (hd : 0 < d) (hquotient : (n : ℚ) / d = 2 ^ (e - 2) / 10 ^ grid)
include hd hquotient

/-- A quarter of a unit in the last place, in steps of the grid. -/
theorem quarter_eq : (n : ℚ) * 10 ^ grid * 4 = d * 2 ^ e := by
  have hten : (10 : ℚ) ^ grid ≠ 0 := (zpow_pos (by norm_num) grid).ne'
  have hpos : (d : ℚ) ≠ 0 := Nat.cast_ne_zero.2 hd.ne'
  have hfour : (2 : ℚ) ^ e = 2 ^ (e - 2) * 4 := by
    rw [show (4 : ℚ) = 2 ^ (2 : Int) by norm_num, ← zpow_add₀ two_ne_zero, sub_add_cancel]
  rw [div_eq_div_iff hpos hten] at hquotient
  rw [hquotient, hfour]
  ring

/-- The ends of a rounding interval on the grid. -/
theorem grid_iff (a c : Nat) :
    ((a * n ≤ c * d) ↔ (a : ℚ) / 4 * 2 ^ e ≤ c * 10 ^ grid) ∧
      ((a * n < c * d) ↔ (a : ℚ) / 4 * 2 ^ e < c * 10 ^ grid) ∧
      ((c * d ≤ a * n) ↔ c * 10 ^ grid ≤ (a : ℚ) / 4 * 2 ^ e) ∧
      ((c * d < a * n) ↔ c * 10 ^ grid < (a : ℚ) / 4 * 2 ^ e) := by
  have hquarter := quarter_eq hd hquotient
  have hten : (0 : ℚ) < 10 ^ grid := zpow_pos (by norm_num) grid
  have hpos : (0 : ℚ) < d := Nat.cast_pos.2 hd
  -- both sides are scaled by the step of the grid and the denominator
  have hleft : ((a * n : Nat) : ℚ) * 10 ^ grid = a / 4 * 2 ^ e * d := by
    push_cast
    linear_combination (a / 4 : ℚ) * hquarter
  have hright : ((c * d : Nat) : ℚ) * 10 ^ grid = c * 10 ^ grid * d := by
    push_cast
    ring
  refine ⟨?_, ?_, ?_, ?_⟩
  · rw [← Nat.cast_le (α := ℚ), ← mul_le_mul_iff_left₀ hten, hleft, hright, mul_le_mul_iff_left₀ hpos]
  · rw [← Nat.cast_lt (α := ℚ), ← mul_lt_mul_iff_left₀ hten, hleft, hright, mul_lt_mul_iff_left₀ hpos]
  · rw [← Nat.cast_le (α := ℚ), ← mul_le_mul_iff_left₀ hten, hleft, hright, mul_le_mul_iff_left₀ hpos]
  · rw [← Nat.cast_lt (α := ℚ), ← mul_lt_mul_iff_left₀ hten, hleft, hright, mul_lt_mul_iff_left₀ hpos]

end

/-- The search on one grid looks at the grid numbers next to the value. -/
theorem gridCandidate_eq (m : Nat) (e grid : Int) :
    ∃ n d : Nat, 0 < d ∧ (n : ℚ) / d = 2 ^ (e - 2) / 10 ^ grid ∧
      gridCandidate m e grid =
        let below := 4 * m * n / d
        match fits m e n d below, fits m e n d (below + 1) with
        | true, true =>
          let down := 4 * m * n - below * d
          let up := (below + 1) * d - 4 * m * n
          if down < up then some below
          else if up < down then some (below + 1)
          else if below % 2 = 0 then some below else some (below + 1)
        | true, false => some below
        | false, true => some (below + 1)
        | false, false => none := by
  obtain ⟨n, d, hscaled, hd, hquotient⟩ := divTwoPow_eq 1 Nat.one_pos (2 - e)
  obtain ⟨n', d', hscaled', hd', hquotient'⟩ := divTenPow_eq n hd grid
  refine ⟨n', d', hd', ?_, ?_⟩
  · rw [hquotient', hquotient, Nat.cast_one, div_one, one_div, ← zpow_neg, neg_sub]
  · unfold gridCandidate
    simp only [hscaled, hscaled']
    rfl

section

variable {grid : Int} {n d : Nat} (hpos : 0 < m) (hd : 0 < d)
  (hquotient : (n : ℚ) / d = 2 ^ (e - 2) / 10 ^ grid)
include hpos hd hquotient

theorem nearest_of_fits {c : Nat} (h : fits m e n d c = true) :
    Nearest m e (c * 10 ^ grid) := by
  have hlow := low_cast (e := e) hpos
  have hhigh : ((4 * m + 2 : Nat) : ℚ) = 4 * (m + 1 / 2) := by push_cast; ring
  have hquarter : ∀ x : ℚ, 4 * x / 4 = x := fun x => by ring
  unfold fits at h
  dsimp only at h
  split at h
  · rename_i heven
    rw [decide_eq_true_eq, (grid_iff hd hquotient _ c).1, (grid_iff hd hquotient _ c).2.2.1, hlow,
      hhigh, hquarter, hquarter] at h
    exact ⟨h.1, h.2, fun hodd => by omega⟩
  · rw [decide_eq_true_eq, (grid_iff hd hquotient _ c).2.1, (grid_iff hd hquotient _ c).2.2.2, hlow,
      hhigh, hquarter, hquarter] at h
    exact .of_strict h.1 h.2

theorem fits_of_strict {c : Nat} (hlow : (m - lowerReach m e) * 2 ^ e < c * 10 ^ grid)
    (hhigh : c * 10 ^ grid < (m + 1 / 2 : ℚ) * 2 ^ e) : fits m e n d c = true := by
  have hleft := low_cast (e := e) hpos
  have hright : ((4 * m + 2 : Nat) : ℚ) = 4 * (m + 1 / 2) := by push_cast; ring
  have hquarter : ∀ x : ℚ, 4 * x / 4 = x := fun x => by ring
  rw [← hquarter (m - _), ← hleft, ← (grid_iff hd hquotient _ c).2.1] at hlow
  rw [← hquarter (m + _), ← hright, ← (grid_iff hd hquotient _ c).2.2.2] at hhigh
  unfold fits
  dsimp only
  split
  · exact decide_eq_true ⟨hlow.le, hhigh.le⟩
  · exact decide_eq_true ⟨hlow, hhigh⟩

end

/-- What the search finds on a grid is rounded to the double. -/
theorem nearest_of_gridCandidate (hpos : 0 < m) {grid : Int} {c : Nat}
    (h : gridCandidate m e grid = some c) : Nearest m e (c * 10 ^ grid) := by
  obtain ⟨n, d, hd, hquotient, hsearch⟩ := gridCandidate_eq m e grid
  have hnearest : ∀ {c : Nat}, fits m e n d c = true → Nearest m e (c * 10 ^ grid) :=
    nearest_of_fits hpos hd hquotient
  rw [hsearch] at h
  dsimp only at h
  split at h
  · rename_i hbelow habove
    split at h
    · exact Option.some.inj h ▸ hnearest hbelow
    · split at h
      · exact Option.some.inj h ▸ hnearest habove
      · split at h
        · exact Option.some.inj h ▸ hnearest hbelow
        · exact Option.some.inj h ▸ hnearest habove
  · rename_i hbelow _
    exact Option.some.inj h ▸ hnearest hbelow
  · rename_i _ habove
    exact Option.some.inj h ▸ hnearest habove
  · cases h

/-- On a grid that is finer than the rounding interval something is found. -/
theorem isSome_gridCandidate (hpos : 0 < m) {grid : Int}
    (hfine : (10 : ℚ) ^ grid < 2 * lowerReach m e * 2 ^ e) :
    (gridCandidate m e grid).isSome = true := by
  obtain ⟨n, d, hd, hquotient, hsearch⟩ := gridCandidate_eq m e grid
  have hdivision := Nat.div_add_mod (4 * m * n) d
  have hmod := Nat.mod_lt (4 * m * n) hd
  have hreach := lowerReach_le (m := m) (e := e)
  have hunit : (0 : ℚ) < 2 ^ e := zpow_pos two_pos e
  have hvalue : ((4 * m : Nat) : ℚ) / 4 * 2 ^ e = m * 2 ^ e := by push_cast; ring
  have hbelow : ((4 * m * n / d : Nat) : ℚ) * 10 ^ grid ≤ m * 2 ^ e := by
    rw [← hvalue, ← (grid_iff hd hquotient _ _).2.2.1, Nat.mul_comm]
    omega
  have habove : m * 2 ^ e < ((4 * m * n / d + 1 : Nat) : ℚ) * 10 ^ grid := by
    rw [← hvalue, ← (grid_iff hd hquotient _ _).2.1, Nat.mul_comm _ d, Nat.mul_succ]
    omega
  rw [Nat.cast_succ, add_mul, one_mul] at habove
  have hslack : lowerReach m e * 2 ^ e ≤ 1 / 2 * 2 ^ e := by nlinarith
  have hfits : fits m e n d (4 * m * n / d) = true ∨ fits m e n d (4 * m * n / d + 1) = true := by
    -- one of the two neighbours is no more than half a step of the grid away
    rcases le_or_gt (m * 2 ^ e - ((4 * m * n / d : Nat) : ℚ) * 10 ^ grid) (10 ^ grid / 2) with h | h
    · refine .inl (fits_of_strict hpos hd hquotient ?_ ?_) <;> linarith
    · refine .inr (fits_of_strict hpos hd hquotient ?_ ?_) <;>
        rw [Nat.cast_succ, add_mul, one_mul] <;> linarith
  rw [hsearch]
  dsimp only
  rcases hfits with h | h
  · rw [h]
    cases fits m e n d (4 * m * n / d + 1)
    · rfl
    · dsimp only
      split_ifs <;> rfl
  · rw [h]
    cases fits m e n d (4 * m * n / d)
    · rfl
    · dsimp only
      split_ifs <;> rfl

/-! ## The first digit -/

/-- Powers of bases of which one is at least the other and at most so many times it. -/
theorem zpow_le_mul_zpow {a b t : ℚ} (hb : 0 < b) (hlow : b ≤ a) (hhigh : a ≤ t * b) (ht : 1 ≤ t)
    {k : Int} {n : Nat} (hk : k ≤ n) : a ^ k ≤ t ^ n * b ^ k := by
  have ha : 0 < a := hb.trans_le hlow
  rcases le_or_gt 0 k with hnonneg | hnegative
  · obtain ⟨k, rfl⟩ := Int.eq_ofNat_of_zero_le hnonneg
    have hkn : k ≤ n := by exact_mod_cast hk
    rw [zpow_natCast, zpow_natCast]
    calc a ^ k ≤ (t * b) ^ k := pow_le_pow_left₀ ha.le hhigh k
      _ = t ^ k * b ^ k := mul_pow t b k
      _ ≤ t ^ n * b ^ k :=
        mul_le_mul_of_nonneg_right (pow_le_pow_right₀ ht hkn) (pow_pos hb k).le
  · obtain ⟨j, rfl⟩ : ∃ j : Nat, k = -(j : Int) := ⟨(-k).toNat, by omega⟩
    rw [zpow_neg, zpow_neg, zpow_natCast, zpow_natCast]
    calc (a ^ j)⁻¹ ≤ (b ^ j)⁻¹ := inv_anti₀ (pow_pos hb j) (pow_le_pow_left₀ hb.le hlow j)
      _ ≤ t ^ n * (b ^ j)⁻¹ :=
        le_mul_of_one_le_left (inv_pos.2 (pow_pos hb j)).le (one_le_pow₀ ht)

/-- The approximate logarithm is at most one too large. -/
theorem tenPow_guess_le {k : Int} (hk : k ≤ 100000) :
    (10 : ℚ) ^ ((k * 30103).fdiv 100000 - 1) ≤ 2 ^ k := by
  have hlow : (2 : ℚ) ^ 100000 ≤ 10 ^ 30103 := by
    exact_mod_cast (by decide +kernel : 2 ^ 100000 ≤ 10 ^ 30103)
  have hhigh : (10 : ℚ) ^ 30103 ≤ 10 * 2 ^ 100000 := by
    exact_mod_cast (by decide +kernel : 10 ^ 30103 ≤ 10 * 2 ^ 100000)
  have hten : (0 : ℚ) < 10 := by norm_num
  have hguess : (k * 30103).fdiv 100000 * 100000 ≤ 30103 * k := by
    rw [Int.fdiv_eq_ediv_of_nonneg _ (by decide)]
    omega
  have hpowers := zpow_le_mul_zpow (pow_pos two_pos 100000) hlow hhigh (by norm_num) (n := 100000) hk
  rw [← pow_le_pow_iff_left₀ (zpow_pos hten _).le (zpow_pos two_pos _).le
    (by decide : (100000 : Nat) ≠ 0)]
  calc ((10 : ℚ) ^ ((k * 30103).fdiv 100000 - 1)) ^ 100000
      = 10 ^ ((k * 30103).fdiv 100000 * 100000) / 10 ^ 100000 := by
        rw [zpow_sub_one₀ hten.ne', mul_pow, ← zpow_natCast, ← zpow_mul, inv_pow, div_eq_mul_inv]
        rfl
    _ ≤ 10 ^ (30103 * k) / 10 ^ 100000 :=
        div_le_div_of_nonneg_right (zpow_le_zpow_right₀ (by norm_num) hguess) (pow_pos hten _).le
    _ = (10 ^ 30103) ^ k / 10 ^ 100000 := by rw [zpow_mul]; rfl
    _ ≤ (2 ^ 100000) ^ k := by rw [div_le_iff₀ (pow_pos hten _), mul_comm]; exact hpowers
    _ = (2 ^ k) ^ 100000 := by
        rw [← zpow_natCast, ← zpow_natCast, ← zpow_mul, ← zpow_mul, mul_comm]

/-- Whether a value has a digit at a power of ten, as it is computed. -/
theorem reaches_iff (m : Nat) (e p : Int) :
    (divTenPow (divTwoPow m 1 (-e)).1 (divTwoPow m 1 (-e)).2 p).2 ≤
        (divTenPow (divTwoPow m 1 (-e)).1 (divTwoPow m 1 (-e)).2 p).1 ↔
      (10 : ℚ) ^ p ≤ m * 2 ^ e := by
  obtain ⟨n, d, hscaled, hd, hquotient⟩ := divTwoPow_eq m Nat.one_pos (-e)
  obtain ⟨n', d', hscaled', hd', hquotient'⟩ := divTenPow_eq n hd p
  have hten : (0 : ℚ) < 10 ^ p := zpow_pos (by norm_num) p
  have hvalue : (n' : ℚ) / d' = m * 2 ^ e / 10 ^ p := by
    rw [hquotient', hquotient, Nat.cast_one, div_one, zpow_neg, div_inv_eq_mul]
  simp only [hscaled, hscaled']
  rw [← Nat.cast_le (α := ℚ), ← one_le_div₀ (Nat.cast_pos.2 hd'), hvalue, one_le_div₀ hten]

theorem tenPow_leadingExponent_le (hm : Canonical m e) (hpos : 0 < m) :
    (10 : ℚ) ^ leadingExponent m e ≤ m * 2 ^ e := by
  have hlog : (2 : ℚ) ^ ((m.log2 : Int) + e) ≤ m * 2 ^ e := by
    rw [zpow_add₀ two_ne_zero, zpow_natCast]
    exact mul_le_mul_of_nonneg_right (log2_bounds hpos).1 (zpow_pos two_pos e).le
  have hlarge : (m.log2 : Int) + e ≤ 100000 := by
    have hbits : m.log2 < 53 := (Nat.log2_lt hpos.ne').2 hm.lt
    have := hm.greatest
    omega
  unfold leadingExponent
  dsimp only
  split
  · rename_i h
    exact (reaches_iff m e _).1 (of_decide_eq_true h)
  · split
    · rename_i h
      exact (reaches_iff m e _).1 (of_decide_eq_true h)
    · exact (tenPow_guess_le hlarge).trans hlog

/-! ## The search -/

/-- The search comes to the first grid with a candidate. -/
theorem gridCandidate_shortestFrom {leading : Int} {k : Nat}
    (hk : (gridCandidate m e (leading - k)).isSome = true) {fuel count : Nat} (hcount : count ≤ k)
    (hfuel : k < count + fuel) :
    gridCandidate m e (shortestFrom m e leading fuel count).exponent =
      some (shortestFrom m e leading fuel count).digits := by
  induction fuel generalizing count with
  | zero => omega
  | succ fuel ih =>
      rw [shortestFrom]
      split
      · rename_i digits hfound
        exact hfound
      · rename_i hnone
        refine ih ?_ (by omega)
        rcases Nat.eq_or_lt_of_le hcount with rfl | hlt
        · rw [hnone] at hk
          cases hk
        · exact hlt

/-- The shortest digits of a double are rounded to it. -/
theorem nearest_shortest (hm : Canonical m e) (hpos : 0 < m) :
    Nearest m e ((shortest m e).digits * 10 ^ (shortest m e).exponent) := by
  refine nearest_of_gridCandidate hpos (gridCandidate_shortestFrom (k := 16) ?_ (Nat.zero_le _)
    (by decide))
  refine isSome_gridCandidate hpos ?_
  have hten : (10 : ℚ) ≠ 0 := by norm_num
  have hunit : (0 : ℚ) < 2 ^ e := zpow_pos two_pos e
  have hlead := tenPow_leadingExponent_le hm hpos
  -- a mantissa has less than 17 digits, and the least one of 53 bits even less than half of 10 ^ 16
  have hmantissa : (m : ℚ) < 2 * lowerReach m e * 10 ^ 16 := by
    rw [lowerReach]
    split
    · rename_i hleast
      rw [hleast.1]
      exact_mod_cast (by norm_num [twoTo] : ((twoTo 52 : Nat) : ℚ) < 2 * (1 / 4) * 10 ^ 16)
    · have hlt : (m : ℚ) < 2 ^ 53 := by exact_mod_cast hm.lt
      norm_num at hlt ⊢
      linarith
  calc (10 : ℚ) ^ (leadingExponent m e - (16 : Nat))
      = 10 ^ leadingExponent m e / 10 ^ 16 := by rw [zpow_sub₀ hten, zpow_natCast]
    _ ≤ m * 2 ^ e / 10 ^ 16 := div_le_div_of_nonneg_right hlead (by norm_num)
    _ < 2 * lowerReach m e * 2 ^ e := by
        rw [div_lt_iff₀ (by norm_num)]
        nlinarith

/-! ## Reading decimals -/

/-- A positive number has so many digits. -/
theorem length_bounds {digits : Nat} (h : 0 < digits) :
    ∃ k : Nat, (toString digits).length = k + 1 ∧ (10 : ℚ) ^ k ≤ digits ∧
      (digits : ℚ) < 10 ^ (k + 1) := by
  have htext : (toString digits).length = (Nat.toDigits 10 digits).length := by
    rw [← String.length_toList]
    exact congrArg List.length Nat.toList_repr
  obtain ⟨k, hk⟩ := Nat.exists_eq_succ_of_ne_zero
    (List.length_pos_iff.2 (Nat.toDigits_ne_nil (b := 10) (n := digits))).ne'
  have hhigh : digits < 10 ^ (k + 1) :=
    (Nat.length_toDigits_le_iff (by decide) (Nat.succ_pos k)).1 hk.le
  have hlow : 10 ^ k ≤ digits := by
    cases k with
    | zero => exact h
    | succ k =>
        rw [← Nat.not_lt, ← Nat.length_toDigits_le_iff (by decide) (Nat.succ_pos k), hk]
        omega
  exact ⟨k, htext.trans hk, by exact_mod_cast hlow, by exact_mod_cast hhigh⟩

section

variable {v : ℚ}

/-- Only zero is rounded to a value that is less than half of the least double. -/
theorem Nearest.least (hm : Canonical m e) (hpos : 0 < m) (h : Nearest m e v) :
    2 ^ (-1075 : Int) ≤ v := by
  have hleast : (2 : ℚ) ^ (-1074 : Int) ≤ 2 ^ e := zpow_le_zpow_right₀ one_le_two hm.least
  have hhalf : (2 : ℚ) ^ (-1075 : Int) = 1 / 2 * 2 ^ (-1074 : Int) := by
    rw [one_div, ← zpow_neg_one, ← zpow_add₀ two_ne_zero]
    rfl
  have hone : (1 : ℚ) ≤ m := by exact_mod_cast hpos
  have hreach := lowerReach_le (m := m) (e := e)
  calc (2 : ℚ) ^ (-1075 : Int)
      = 1 / 2 * 2 ^ (-1074 : Int) := hhalf
    _ ≤ 1 / 2 * 2 ^ e := mul_le_mul_of_nonneg_left hleast (by norm_num)
    _ ≤ (m - lowerReach m e) * 2 ^ e :=
        mul_le_mul_of_nonneg_right (by linarith only [hone, hreach]) (zpow_pos two_pos e).le
    _ ≤ v := h.low

/-- What is rounded to a double is not above the doubles. -/
theorem Nearest.greatest (hm : Canonical m e) (h : Nearest m e v) : v ≤ 2 ^ (1024 : Int) := by
  have hgreatest : (2 : ℚ) ^ e ≤ 2 ^ (971 : Int) := zpow_le_zpow_right₀ one_le_two hm.greatest
  have hmost : (m : ℚ) + 1 ≤ 2 ^ 53 := by exact_mod_cast hm.lt
  calc v ≤ (m + 1 / 2) * 2 ^ e := h.high
    _ ≤ 2 ^ 53 * 2 ^ e :=
        mul_le_mul_of_nonneg_right (by linarith only [hmost]) (zpow_pos two_pos e).le
    _ ≤ 2 ^ 53 * 2 ^ (971 : Int) := mul_le_mul_of_nonneg_left hgreatest (by norm_num)
    _ = 2 ^ (1024 : Int) := by
        rw [← zpow_natCast, ← zpow_add₀ two_ne_zero]
        rfl

end

section

variable {digits k : Nat} {power : Int}

/-- A decimal number that is rounded to a positive double has a digit that is not zero. -/
theorem Nearest.pos_of_decimal (hpos : 0 < m) (h : Nearest m e (digits * 10 ^ power)) :
    0 < digits := by
  refine Nat.pos_of_ne_zero fun hzero => (h.pos hpos).ne' ?_
  rw [hzero, Nat.cast_zero, zero_mul]

/-- A decimal number that is not below the doubles has its point where it is read as one. -/
theorem least_place (hlast : (digits : ℚ) < 10 ^ (k + 1))
    (hlow : 2 ^ (-1075 : Int) ≤ digits * (10 : ℚ) ^ power) :
    ¬ power + ((k + 1 : Nat) : Int) < -330 := by
  intro hsize
  have hbelow : digits * (10 : ℚ) ^ power < 10 ^ (power + ((k + 1 : Nat) : Int)) := by
    rw [zpow_add₀ (by norm_num), zpow_natCast, mul_comm]
    exact mul_lt_mul_of_pos_left hlast (zpow_pos (by norm_num) power)
  have hpower : (10 : ℚ) ^ (power + ((k + 1 : Nat) : Int)) ≤ 10 ^ (-331 : Int) :=
    zpow_le_zpow_right₀ (by norm_num) (by omega)
  have hgap : (10 : ℚ) ^ (-331 : Int) < 2 ^ (-1075 : Int) := by
    rw [zpow_neg, zpow_neg, inv_lt_inv₀ (by positivity) (by positivity)]
    exact_mod_cast (by decide +kernel : 2 ^ 1075 < 10 ^ 331)
  exact absurd (hlow.trans_lt (hbelow.trans_le hpower)) (not_lt.2 hgap.le)

/-- And so has one that is not above the doubles. -/
theorem greatest_place (hfirst : (10 : ℚ) ^ k ≤ digits)
    (hhigh : digits * (10 : ℚ) ^ power ≤ 2 ^ (1024 : Int)) :
    ¬ 310 < power + ((k + 1 : Nat) : Int) := by
  intro hsize
  have habove : (10 : ℚ) ^ (power + (k : Int)) ≤ digits * 10 ^ power := by
    rw [zpow_add₀ (by norm_num), zpow_natCast, mul_comm]
    exact mul_le_mul_of_nonneg_right hfirst (zpow_pos (by norm_num) power).le
  have hpower : (10 : ℚ) ^ (310 : Int) ≤ 10 ^ (power + (k : Int)) :=
    zpow_le_zpow_right₀ (by norm_num) (by omega)
  have hgap : (2 : ℚ) ^ (1024 : Int) < 10 ^ (310 : Int) := by
    exact_mod_cast (by decide +kernel : 2 ^ 1024 < 10 ^ 310)
  exact absurd (hpower.trans (habove.trans hhigh)) (not_le.2 hgap)

end

/-- A decimal number in the rounding interval of a double is read as the double. -/
theorem ofDecimal_eq (hm : Canonical m e) (hpos : 0 < m) (negative : Bool) {digits : Nat}
    {power : Int} (h : Nearest m e (digits * 10 ^ power)) :
    ofDecimal negative digits power = Float.ofBits (UInt64.ofNat
      ((if negative then twoTo 63 else 0) + ((e + 1074).toNat * twoTo 52 + m))) := by
  have hdigits := h.pos_of_decimal hpos
  obtain ⟨k, hlength, hfirst, hlast⟩ := length_bounds hdigits
  have hsmall := least_place hlast (h.least hm hpos)
  have hlarge := greatest_place hfirst (h.greatest hm)
  rw [ofDecimal, hlength, if_neg (not_or.2 ⟨hdigits.ne', hsmall⟩), if_neg hlarge]
  split
  · rename_i hnonneg
    obtain ⟨j, rfl⟩ := Int.eq_ofNat_of_zero_le hnonneg
    have hvalue : ((digits * tenTo j : Nat) : ℚ) / (1 : Nat) = digits * 10 ^ (j : Int) := by
      rw [tenTo_eq_pow, Nat.cast_one, div_one, zpow_natCast]
      push_cast
      rfl
    rw [← hvalue] at h
    rw [ofRatio, Int.toNat_natCast, bitsOfRatio_eq hm hpos Nat.one_pos h]
  · rename_i hnegative
    obtain ⟨j, rfl⟩ : ∃ j : Nat, power = -(j : Int) := ⟨(-power).toNat, by omega⟩
    have hvalue : (digits : ℚ) / (tenTo j : Nat) = digits * 10 ^ (-(j : Int)) := by
      rw [tenTo_eq_pow, zpow_neg, zpow_natCast, div_eq_mul_inv]
      push_cast
      rfl
    have hden : 0 < tenTo j := Nat.pow_pos (by decide)
    rw [← hvalue] at h
    rw [ofRatio, neg_neg, Int.toNat_natCast, bitsOfRatio_eq hm hpos hden h]

/-! ## Decimal text -/

theorem numeral_append (before after : List Char) :
    Text.numeral (before ++ after) =
      Text.numeral before * 10 ^ after.length + Text.numeral after := by
  induction after using List.reverseRecOn with
  | nil => simp
  | append_singleton after c ih =>
      rw [← List.append_assoc, Text.numeral_concat, Text.numeral_concat, ih, List.length_append,
        List.length_singleton, pow_succ]
      ring

theorem numeral_zeros (n : Nat) : Text.numeral (List.replicate n '0') = 0 := by
  induction n with
  | zero => rfl
  | succ n ih =>
      have hzero : Text.decimalValue '0' = 0 := rfl
      rw [List.replicate_succ', Text.numeral_concat, ih, hzero]

/-- Digits are what is kept of them and the zeros that are dropped. -/
theorem dropZeros_eq (digits : List Char) :
    digits = (dropZeros digits).1 ++ List.replicate (dropZeros digits).2 '0' := by
  have hsplit := List.takeWhile_append_dropWhile (p := (· == '0')) (l := digits.reverse)
  have hzeros : digits.reverse.takeWhile (· == '0') =
      List.replicate (digits.reverse.takeWhile (· == '0')).length '0' :=
    List.eq_replicate_of_mem fun c hc => by simpa using List.mem_takeWhile_imp hc
  have hdigits : digits = (digits.reverse.dropWhile (· == '0')).reverse ++
      List.replicate (digits.reverse.takeWhile (· == '0')).length '0' := by
    conv_lhs => rw [← List.reverse_reverse digits, ← hsplit, List.reverse_append, hzeros]
    rw [List.reverse_replicate]
  have hcount : (dropZeros digits).2 = (digits.reverse.takeWhile (· == '0')).length := by
    have := congrArg List.length hdigits
    rw [List.length_append, List.length_replicate] at this
    rw [dropZeros]
    omega
  rw [hcount]
  exact hdigits

/-- The numeral with some digits, of which so many stand before the point. -/
def placed (negative : Bool) (digits : List Char) (point : Int) : Numeral :=
  if -4 < point ∧ point ≤ 16 then
    if point ≤ 0 then ⟨negative, ['0'], List.replicate (-point).toNat '0' ++ digits, none⟩
    else if point.toNat < digits.length then
      ⟨negative, digits.take point.toNat, digits.drop point.toNat, none⟩
    else ⟨negative, digits ++ List.replicate (point.toNat - digits.length) '0', ['0'], none⟩
  else
    let size := (toString (point - 1).natAbs).toList
    ⟨negative, digits.take 1, digits.drop 1,
      some (decide (point - 1 < 0), if size.length < 2 then '0' :: size else size)⟩

section

variable {negative : Bool} {digits : List Char} {point : Int}

theorem isDigit_size (n : Nat) : ∀ c ∈ (toString n).toList, c.isDigit = true := by
  intro c hc
  exact isDigit_toDigits c ((congrArg (c ∈ ·) Nat.toList_repr).mp hc)

theorem isDigit_replicate (n : Nat) : ∀ c ∈ List.replicate n '0', c.isDigit = true := by
  intro c hc
  rw [List.eq_of_mem_replicate hc]
  rfl

theorem negative_placed : (placed negative digits point).negative = negative := by
  unfold placed
  split_ifs <;> rfl

theorem valid_placed (hne : digits ≠ []) (hhead : digits.head? ≠ some '0')
    (hdigits : ∀ c ∈ digits, c.isDigit = true) : (placed negative digits point).Valid := by
  have htake : ∀ n, 0 < n → digits.take n ≠ [] ∧ (digits.take n).head? ≠ some '0' := by
    intro n hn
    obtain ⟨c, rest, rfl⟩ := List.exists_cons_of_ne_nil hne
    obtain ⟨n, rfl⟩ := Nat.exists_eq_succ_of_ne_zero hn.ne'
    exact ⟨List.cons_ne_nil _ _, hhead⟩
  have hsplit : ∀ n, ∀ c ∈ digits.take n ++ digits.drop n, c.isDigit = true := by
    intro n
    rw [List.take_append_drop]
    exact hdigits
  unfold placed
  split
  · split
    · refine ⟨.inl rfl, ?_, fun _ _ h => nomatch h⟩
      exact List.forall_mem_append.2 ⟨List.forall_mem_singleton.2 rfl,
        List.forall_mem_append.2 ⟨isDigit_replicate _, hdigits⟩⟩
    · rename_i hpoint
      split
      · exact ⟨.inr (htake _ (by omega)), hsplit _, fun _ _ h => nomatch h⟩
      · refine ⟨.inr ⟨?_, ?_⟩, ?_, fun _ _ h => nomatch h⟩
        · exact fun h => hne (List.append_eq_nil_iff.1 h).1
        · rw [List.head?_append_of_ne_nil _ hne]
          exact hhead
        · exact List.forall_mem_append.2 ⟨List.forall_mem_append.2 ⟨hdigits, isDigit_replicate _⟩,
            List.forall_mem_singleton.2 rfl⟩
  · refine ⟨.inr (htake 1 Nat.one_pos), hsplit 1, ?_⟩
    rintro _ size ⟨⟩
    have hsize := isDigit_size (point - 1).natAbs
    split
    · exact ⟨List.cons_ne_nil _ _, List.forall_mem_cons.2 ⟨rfl, hsize⟩⟩
    · rename_i hlong
      exact ⟨fun h => hlong (by rw [h]; decide), hsize⟩

theorem parts_placed (hne : digits ≠ []) :
    (placed negative digits point).fraction ≠ [] ∨ (placed negative digits point).exponent ≠ none := by
  unfold placed
  split
  · left
    split
    · exact fun h => hne (List.append_eq_nil_iff.1 h).2
    · split
      · rename_i hlt
        exact fun h => absurd (List.drop_eq_nil_iff.1 h) (Nat.not_le.2 hlt)
      · exact List.cons_ne_nil _ _
  · exact .inr (fun h => nomatch h)

/-- The digits of an exponent, of which there are two at least, have its value. -/
theorem numeral_padded (n : Nat) :
    Text.numeral (if (toString n).toList.length < 2 then '0' :: (toString n).toList
      else (toString n).toList) = n := by
  have hsize : Text.numeral (toString n).toList = n :=
    (congrArg Text.numeral Nat.toList_repr).trans (numeral_toDigits n)
  split
  · rw [← List.singleton_append, numeral_append, hsize]
    exact (congrArg (· + n) (Nat.zero_mul _)).trans (Nat.zero_add n)
  · exact hsize

theorem signed_natAbs (n : Int) : signed (decide (n < 0)) n.natAbs = n := by
  rw [signed]
  split
  · rename_i h
    rw [decide_eq_true_eq] at h
    omega
  · rename_i h
    rw [decide_eq_true_eq] at h
    omega

theorem value_placed (hne : digits ≠ []) :
    (Text.numeral ((placed negative digits point).whole ++ (placed negative digits point).fraction) : ℚ) *
        10 ^ (placed negative digits point).power =
      Text.numeral digits * 10 ^ (point - digits.length) := by
  have hten : (10 : ℚ) ≠ 0 := by norm_num
  have hzero : Text.numeral ['0'] = 0 := rfl
  unfold placed
  split
  · split
    · rename_i hpoint
      have hvalue : Text.numeral (['0'] ++ (List.replicate (-point).toNat '0' ++ digits)) =
          Text.numeral digits := by
        rw [numeral_append, numeral_append, hzero, numeral_zeros]
        omega
      have hpower : (0 : Int) - (List.replicate (-point).toNat '0' ++ digits).length =
          point - digits.length := by
        rw [List.length_append, List.length_replicate]
        omega
      rw [hvalue, Numeral.power, hpower]
    · split
      · have hpower : (0 : Int) - (digits.drop point.toNat).length = point - digits.length := by
          rw [List.length_drop]
          omega
        rw [List.take_append_drop, Numeral.power, hpower]
      · rename_i hpoint hlarge
        obtain ⟨k, hk⟩ : ∃ k : Nat, point = digits.length + k :=
          ⟨point.toNat - digits.length, by omega⟩
        have hzeros : point.toNat - digits.length = k := by omega
        have hvalue : Text.numeral (digits ++ List.replicate k '0' ++ ['0']) =
            Text.numeral digits * 10 ^ (k + 1) := by
          rw [numeral_append, numeral_append, hzero, numeral_zeros, List.length_replicate, pow_succ]
          simp [Nat.mul_assoc]
        have hpower : point - digits.length = ((k + 1 : Nat) : Int) + (0 - (1 : Nat)) := by
          push_cast
          omega
        rw [hzeros, hvalue, Numeral.power, hpower, zpow_add₀ hten, zpow_natCast]
        push_cast
        rw [mul_assoc]
        rfl
  · have hlength : 0 < digits.length := List.length_pos_iff.2 hne
    have hpower : point - 1 - (digits.drop 1).length = point - digits.length := by
      rw [List.length_drop]
      omega
    dsimp only
    rw [List.take_append_drop, Numeral.power]
    dsimp only
    rw [numeral_padded, signed_natAbs, hpower]

end

/-- The characters of a decimal number are those of a numeral. -/
theorem chars_placed (negative : Bool) {d : Decimal}
    (hne : (dropZeros (toString d.digits).toList).1 ≠ []) :
    (placed negative (dropZeros (toString d.digits).toList).1
      (d.exponent + (dropZeros (toString d.digits).toList).2 +
        (dropZeros (toString d.digits).toList).1.length)).chars =
      (if negative then ['-'] else []) ++ d.text.toList := by
  unfold Decimal.text
  revert hne
  generalize dropZeros (toString d.digits).toList = kept
  obtain ⟨digits, dropped⟩ := kept
  intro hne
  dsimp only at hne ⊢
  generalize d.exponent + (dropped : Int) + digits.length = point
  have hfraction : ∀ fraction : List Char, fraction ≠ [] →
      (if fraction.isEmpty then [] else '.' :: fraction) = '.' :: fraction :=
    fun fraction h => if_neg (List.isEmpty_iff.not.2 h)
  unfold placed
  split
  · split
    · have hsome : List.replicate (-point).toNat '0' ++ digits ≠ [] :=
        fun h => hne (List.append_eq_nil_iff.1 h).2
      simp only [Numeral.chars, Numeral.sign, Numeral.fractionPart, Numeral.exponentPart,
        hfraction _ hsome, String.toList_ofList, List.append_nil, List.append_assoc]
      rfl
    · split
      · rename_i hlt
        have hsome : digits.drop point.toNat ≠ [] :=
          fun h => absurd (List.drop_eq_nil_iff.1 h) (Nat.not_le.2 hlt)
        simp only [Numeral.chars, Numeral.sign, Numeral.fractionPart, Numeral.exponentPart,
          hfraction _ hsome, String.toList_ofList, List.append_nil, List.append_assoc]
      · simp [Numeral.chars, Numeral.sign, Numeral.fractionPart, Numeral.exponentPart]
  · have hpart : (if (digits.drop 1).isEmpty then [] else '.' :: digits.drop 1) =
        if digits.length ≤ 1 then [] else '.' :: digits.drop 1 := by
      simp only [List.isEmpty_iff, List.drop_eq_nil_iff]
    have hsign : (if decide (point - 1 < 0) = true then '-' else '+') =
        if point - 1 < 0 then '-' else '+' := by
      simp only [decide_eq_true_eq]
    simp only [Numeral.chars, Numeral.sign, Numeral.fractionPart, Numeral.exponentPart, hpart,
      hsign, String.toList_ofList, List.append_assoc]

/-- What is kept of the digits of a positive number, with the zeros that are dropped. -/
theorem kept_digits {digits : Nat} (h : 0 < digits) :
    (dropZeros (toString digits).toList).1 ≠ [] ∧
      (dropZeros (toString digits).toList).1.head? ≠ some '0' ∧
      (∀ c ∈ (dropZeros (toString digits).toList).1, c.isDigit = true) ∧
      Text.numeral (dropZeros (toString digits).toList).1 *
        10 ^ (dropZeros (toString digits).toList).2 = digits := by
  have htext : (toString digits).toList = Nat.toDigits 10 digits := Nat.toList_repr
  have hhead := head_toDigits h
  have hdigits := isDigit_toDigits (n := digits)
  have hvalue := numeral_toDigits digits
  have hne := Nat.toDigits_ne_nil (b := 10) (n := digits)
  rw [htext]
  have hsplit := dropZeros_eq (Nat.toDigits 10 digits)
  rw [hsplit] at hhead hdigits hvalue hne
  have hsome : (dropZeros (Nat.toDigits 10 digits)).1 ≠ [] := by
    intro hnil
    rw [hnil, List.nil_append] at hhead hne
    cases hzeros : (dropZeros (Nat.toDigits 10 digits)).2 with
    | zero => rw [hzeros] at hne; exact hne rfl
    | succ n => rw [hzeros] at hhead; exact hhead rfl
  rw [List.head?_append_of_ne_nil _ hsome] at hhead
  rw [numeral_append, numeral_zeros, List.length_replicate, Nat.add_zero] at hvalue
  exact ⟨hsome, hhead, fun c hc => hdigits c (List.mem_append_left _ hc), hvalue⟩

/-- Every finite double is written as a numeral that is read as the double. -/
theorem exists_numeral {x : Float} {negative : Bool} (h : Double.ofFloat x = .finite negative m e) :
    ∃ n : Numeral, n.Valid ∧ (n.fraction ≠ [] ∨ n.exponent ≠ none) ∧
      (floatText x).toList = n.chars ∧
      ofDecimal n.negative (Text.numeral (n.whole ++ n.fraction)) n.power = x := by
  obtain ⟨hm, hx⟩ := eq_ofBits_of_finite h
  have hbody : ∀ body : String, (if negative then "-" ++ body else body).toList =
      (if negative then ['-'] else []) ++ body.toList := by
    intro body
    cases negative with
    | true => exact String.toList_append
    | false => rfl
  rw [floatText, h]
  dsimp only
  rw [hbody]
  rcases Nat.eq_zero_or_pos m with rfl | hpos
  · have hleast : e = -1074 := by
      have := hm.least
      have hnormal := hm.normal
      have : ¬ twoTo 52 ≤ 0 := by decide
      omega
    subst hleast
    refine ⟨⟨negative, ['0'], ['0'], none⟩, ⟨.inl rfl, ?_, fun _ _ h => nomatch h⟩,
      .inl (List.cons_ne_nil _ _), ?_, ?_⟩
    · exact List.forall_mem_cons.2 ⟨rfl, List.forall_mem_singleton.2 rfl⟩
    · cases negative <;> rfl
    · have hzero : Text.numeral (['0'] ++ ['0']) = 0 := rfl
      rw [hzero, ofDecimal, if_pos (.inl rfl), hx]
      rfl
  · have hnearest := nearest_shortest hm hpos
    rw [if_neg hpos.ne']
    generalize shortest m e = d at hnearest
    obtain ⟨hne, hhead, hall, hvalue⟩ := kept_digits (hnearest.pos_of_decimal hpos)
    let point := d.exponent + (dropZeros (toString d.digits).toList).2 +
      (dropZeros (toString d.digits).toList).1.length
    let n := placed negative (dropZeros (toString d.digits).toList).1 point
    have hsame : (Text.numeral (n.whole ++ n.fraction) : ℚ) * 10 ^ n.power =
        d.digits * 10 ^ d.exponent := by
      have hplaced : (Text.numeral (n.whole ++ n.fraction) : ℚ) * 10 ^ n.power = _ :=
        value_placed hne
      have hpower : point - (dropZeros (toString d.digits).toList).1.length =
          (dropZeros (toString d.digits).toList).2 + d.exponent := by omega
      rw [hplaced, hpower, zpow_add₀ (by norm_num), zpow_natCast, ← mul_assoc]
      exact_mod_cast congrArg (fun k : Nat => (k : ℚ) * 10 ^ d.exponent) hvalue
    have hread : ofDecimal n.negative (Text.numeral (n.whole ++ n.fraction)) n.power = x := by
      rw [negative_placed, hx]
      exact ofDecimal_eq hm hpos negative (hsame ▸ hnearest)
    exact ⟨n, valid_placed hne hhead hall, parts_placed hne, (chars_placed negative hne).symm, hread⟩

end RandomTables.Number
