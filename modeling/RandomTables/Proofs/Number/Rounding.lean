-- SUMMARY: A double is determined by its bits, and the fractions around it are rounded to it.
import Mathlib
import RandomTables.Number.Binary
import RandomTables.Number.Text

/-!
# Rounding to a double

A positive double `m * 2 ^ e` is the nearest one for the fractions around it, up to half a unit in the
last place and below the least mantissa up to a quarter. A fraction at an end of this interval is
rounded to the even mantissa. Everything is stated in units of the last place, as rational numbers.
-/
namespace RandomTables.Number

/-! ## Doubles and their bits

The word of a double is its sign, its exponent and its mantissa side by side, and there is one word for
not-a-number only. So a double is determined by the value that its bits stand for:
`eq_ofBits_of_finite` writes the bits of a finite double as one sum. -/

section

open Float.Model Float.Model.UnpackedFloat

/-! ## The parts of a word -/

/-- The powers of two that cut the word of a double. -/
theorem twoTo_fields : twoTo 63 = 9223372036854775808 ∧ twoTo 52 = 4503599627370496 ∧
    twoTo 11 = 2048 := by decide

theorem toNat_unpackMantissa (b : BitVec Format.binary64.numBits) :
    (unpackMantissa b).toNat = b.toNat % twoTo 52 := by
  rw [unpackMantissa, BitVec.toNat_cast, BitVec.extractLsb_toNat]
  rfl

theorem toNat_unpackExponent (b : BitVec Format.binary64.numBits) :
    (unpackExponent b).toNat = b.toNat / twoTo 52 % twoTo 11 := by
  rw [unpackExponent, BitVec.toNat_cast, BitVec.extractLsb_toNat, Nat.shiftRight_eq_div_pow]
  rfl

theorem toNat_unpackSign (b : BitVec Format.binary64.numBits) :
    (unpackSign b).toNat = b.toNat / twoTo 63 % 2 := by
  rw [unpackSign, BitVec.toNat_cast, BitVec.extractLsb_toNat, Nat.shiftRight_eq_div_pow]
  rfl

theorem eq_ofBits {x : Float} {bits : Nat} (h : x.toBits.toNat = bits) :
    x = Float.ofBits (UInt64.ofNat bits) := by
  rw [← h, UInt64.ofNat_toNat, Float.ofBits_toBits]

/-! ## Doubles by their values -/

variable {x : Float} {negative : Bool}

/-- There is one not-a-number. -/
theorem eq_nan (h : Double.ofFloat x = .nan) : x = nan := by
  obtain ⟨h63, h52, h11⟩ := twoTo_fields
  have hfields : (x.toBits.toNat / twoTo 52 % twoTo 11 = 2047) ∧ x.toBits.toNat % twoTo 52 ≠ 0 := by
    simp only [Double.ofFloat, Double.ofBits] at h
    split at h
    · split at h
      · cases h
      · exact ⟨‹_›, ‹_›⟩
    · split at h <;> cases h
  have hword : x.toBits.toBitVec = packedNaN Format.binary64 := by
    refine x.toModel.valid.eq_packedNaN (BitVec.eq_of_toNat_eq ?_) fun hzero => ?_
    · exact (toNat_unpackExponent _).trans hfields.1
    · exact hfields.2 ((toNat_unpackMantissa _).symm.trans (congrArg BitVec.toNat hzero))
  exact eq_ofBits (congrArg BitVec.toNat hword)

theorem eq_infinity (h : Double.ofFloat x = .infinite negative) : x = infinity negative := by
  obtain ⟨h63, h52, h11⟩ := twoTo_fields
  have hlt : x.toBits.toNat < 18446744073709551616 := x.toBits.toNat_lt
  simp only [Double.ofFloat, Double.ofBits, h63, h52, h11] at h
  split at h
  · split at h
    · cases h
      rename_i hexponent hzero
      rw [infinity]
      split
      · rename_i hsign
        rw [decide_eq_true_eq] at hsign
        have hbits : x.toBits.toNat = 0xfff0000000000000 := by omega
        exact eq_ofBits hbits
      · rename_i hsign
        rw [decide_eq_true_eq] at hsign
        have hbits : x.toBits.toNat = 0x7ff0000000000000 := by omega
        exact eq_ofBits hbits
    · cases h
  · split at h <;> cases h

/-- A mantissa and an exponent that a finite double can have. The mantissa has 53 bits unless the
exponent is the least. -/
structure Canonical (mantissa : Nat) (exponent : Int) : Prop where
  lt : mantissa < twoTo 53
  least : -1074 ≤ exponent
  greatest : exponent ≤ 971
  normal : -1074 < exponent → twoTo 52 ≤ mantissa

variable {mantissa : Nat} {exponent : Int}

/-- The bits of a finite double. -/
theorem eq_ofBits_of_finite (h : Double.ofFloat x = .finite negative mantissa exponent) :
    Canonical mantissa exponent ∧
      x = Float.ofBits (UInt64.ofNat ((if negative then twoTo 63 else 0) +
        ((exponent + 1074).toNat * twoTo 52 + mantissa))) := by
  obtain ⟨h63, h52, h11⟩ := twoTo_fields
  have h53 : twoTo 53 = 9007199254740992 := by decide
  have hlt : x.toBits.toNat < 18446744073709551616 := x.toBits.toNat_lt
  simp only [Double.ofFloat, Double.ofBits, h63, h52, h11] at h
  have hsign : ∀ n, (if decide (x.toBits.toNat / 9223372036854775808 % 2 = 1) then twoTo 63 else 0) + n =
      x.toBits.toNat / 9223372036854775808 % 2 * 9223372036854775808 + n := by
    intro n
    rw [h63]
    split
    · rename_i hsign
      rw [decide_eq_true_eq] at hsign
      rw [hsign, Nat.one_mul]
    · rename_i hsign
      rw [decide_eq_true_eq] at hsign
      have hzero : x.toBits.toNat / 9223372036854775808 % 2 = 0 := by omega
      rw [hzero, Nat.zero_mul]
  split at h
  · split at h <;> cases h
  · split at h
    · cases h
      refine ⟨⟨by omega, by omega, by omega, by omega⟩, ?_⟩
      rw [hsign, h52]
      exact eq_ofBits (by omega)
    · cases h
      refine ⟨⟨by omega, by omega, by omega, by omega⟩, ?_⟩
      rw [hsign, h52]
      exact eq_ofBits (by omega)

/-! ## Doubles that are not negative -/

/-- What is not less than zero is a zero or has the positive sign. -/
theorem zero_or_positive_of_le {u : UnpackedFloat}
    (h : UnpackedFloat.le (.zero .positive) u = true) :
    (∃ s, u = .zero s) ∨ u = .infinity .positive ∨ ∃ m e hm, u = .finite .positive m e hm := by
  cases u with
  | zero s => exact .inl ⟨s, rfl⟩
  | notANumber => cases h
  | infinity s =>
      cases s with
      | positive => exact .inr (.inl rfl)
      | negative => cases h
  | finite s m e hm =>
      cases s with
      | positive => exact .inr (.inr ⟨m, e, hm, rfl⟩)
      | negative => cases h

/-- The word of a double that is not less than zero has no sign, unless the rest of it is zero. -/
theorem sign_of_nonneg (hx : 0 ≤ x) :
    x.toBits.toNat / twoTo 63 % 2 = 0 ∨
      x.toBits.toNat / twoTo 52 % twoTo 11 = 0 ∧ x.toBits.toNat % twoTo 52 = 0 := by
  have hcases : (∃ s, UnpackedFloat.unpack Format.binary64 x.toBits.toBitVec = .zero s) ∨ _ ∨ _ :=
    zero_or_positive_of_le (of_decide_eq_true hx)
  have hpositive : Sign.ofBitVec (@unpackSign Format.binary64 x.toBits.toBitVec) =
      .positive → x.toBits.toNat / twoTo 63 % 2 = 0 := by
    intro hsign
    unfold Sign.ofBitVec at hsign
    split at hsign
    · rename_i hzero
      exact (toNat_unpackSign _).symm.trans (congrArg BitVec.toNat hzero)
    · cases hsign
  unfold UnpackedFloat.unpack at hcases
  dsimp only at hcases
  split at hcases
  · split at hcases
    · rcases hcases with ⟨s, h⟩ | h | ⟨m, e, hm, h⟩
      · cases h
      · exact .inl (hpositive (UnpackedFloat.infinity.inj h))
      · cases h
    · rcases hcases with ⟨s, h⟩ | h | ⟨m, e, hm, h⟩ <;> cases h
  · split at hcases
    · rename_i hexponent
      split at hcases
      · rename_i hmantissa
        exact .inr ⟨(toNat_unpackExponent _).symm.trans (congrArg BitVec.toNat hexponent),
          (toNat_unpackMantissa _).symm.trans (congrArg BitVec.toNat hmantissa)⟩
      · rcases hcases with ⟨s, h⟩ | h | ⟨m, e, hm, h⟩
        · cases h
        · cases h
        · exact .inl (hpositive (UnpackedFloat.finite.inj h).1)
    · rcases hcases with ⟨s, h⟩ | h | ⟨m, e, hm, h⟩
      · cases h
      · cases h
      · exact .inl (hpositive (UnpackedFloat.finite.inj h).1)

end

/-! ## Fractions -/

/-- A fraction divided by a power of a base. -/
theorem scaled {base : Nat} (hbase : 0 < base) (num : Nat) {den : Nat} (hden : 0 < den) (e : Int) :
    ∃ n d : Nat, (if 0 ≤ e then (num, den * base ^ e.toNat) else (num * base ^ (-e).toNat, den)) =
      (n, d) ∧ 0 < d ∧ (n : ℚ) / d = num / den / (base : ℚ) ^ e := by
  have hne : (base : ℚ) ≠ 0 := Nat.cast_ne_zero.2 hbase.ne'
  split
  · rename_i he
    obtain ⟨k, rfl⟩ := Int.eq_ofNat_of_zero_le he
    refine ⟨_, _, rfl, Nat.mul_pos hden (Nat.pow_pos hbase), ?_⟩
    rw [Int.toNat_natCast, zpow_natCast, Nat.cast_mul, Nat.cast_pow, div_div]
  · rename_i he
    obtain ⟨k, rfl⟩ : ∃ k : Nat, e = -(k : Int) := ⟨(-e).toNat, by omega⟩
    refine ⟨_, _, rfl, hden, ?_⟩
    rw [neg_neg, Int.toNat_natCast, zpow_neg, zpow_natCast, Nat.cast_mul, Nat.cast_pow, div_inv_eq_mul,
      mul_div_right_comm]

theorem divTwoPow_eq (num : Nat) {den : Nat} (hden : 0 < den) (e : Int) :
    ∃ n d : Nat, divTwoPow num den e = (n, d) ∧ 0 < d ∧ (n : ℚ) / d = num / den / (2 : ℚ) ^ e :=
  scaled Nat.two_pos num hden e

theorem divTenPow_eq (num : Nat) {den : Nat} (hden : 0 < den) (e : Int) :
    ∃ n d : Nat, divTenPow num den e = (n, d) ∧ 0 < d ∧ (n : ℚ) / d = num / den / (10 : ℚ) ^ e :=
  scaled (Nat.succ_pos 9) num hden e

/-- A fraction is rounded to a number that is at most a half away from it. If it is just a half away,
the number has to be even. -/
theorem roundDiv_of_le {num den m : Nat} (hden : 0 < den) (hlow : 2 * (den * m) ≤ 2 * num + den)
    (hhigh : 2 * num ≤ 2 * (den * m) + den)
    (hodd : m % 2 = 1 → 2 * (den * m) < 2 * num + den ∧ 2 * num < 2 * (den * m) + den) :
    roundDiv num den = m := by
  have hdivision := Nat.div_add_mod num den
  have hmod := Nat.mod_lt num hden
  have hle : num / den ≤ m := by
    by_contra hgt
    have := Nat.mul_le_mul_left den (Nat.not_le.1 hgt)
    rw [Nat.mul_succ] at this
    omega
  have hge : m ≤ num / den + 1 := by
    by_contra hgt
    have := Nat.mul_le_mul_left den (Nat.not_le.1 hgt)
    rw [Nat.mul_succ, Nat.mul_succ] at this
    omega
  rw [roundDiv]
  obtain rfl | rfl : m = num / den ∨ m = num / den + 1 := by omega
  · split
    · rfl
    · split
      · omega
      · split
        · rfl
        · omega
  · rw [Nat.mul_succ] at hlow hhigh hodd
    split
    · omega
    · split
      · rfl
      · split
        · omega
        · rfl

theorem roundDiv_eq {num den m : Nat} (hden : 0 < den) (hlow : (m : ℚ) - 1 / 2 ≤ num / den)
    (hhigh : (num : ℚ) / den ≤ m + 1 / 2)
    (hodd : m % 2 = 1 → (m : ℚ) - 1 / 2 < num / den ∧ (num : ℚ) / den < m + 1 / 2) :
    roundDiv num den = m := by
  have hpos : (0 : ℚ) < den := Nat.cast_pos.2 hden
  rw [le_div_iff₀ hpos] at hlow
  rw [div_le_iff₀ hpos] at hhigh
  rw [lt_div_iff₀ hpos, div_lt_iff₀ hpos] at hodd
  refine roundDiv_of_le hden ?_ ?_ fun h => ⟨?_, ?_⟩
  · qify
    linarith
  · qify
    linarith
  · qify
    linarith [(hodd h).1]
  · qify
    linarith [(hodd h).2]

/-! ## The exponent of a fraction -/

theorem log2_bounds {n : Nat} (h : 0 < n) :
    (2 : ℚ) ^ n.log2 ≤ n ∧ (n : ℚ) < 2 * 2 ^ n.log2 := by
  have hlow := Nat.log2_self_le h.ne'
  have hhigh := Nat.lt_log2_self (n := n)
  rw [pow_succ'] at hhigh
  exact ⟨by exact_mod_cast hlow, by exact_mod_cast hhigh⟩

/-- The exponent at which a fraction has 53 bits before the point, unless it is below the least. -/
theorem exponentFor_eq {num den : Nat} (hnum : 0 < num) (hden : 0 < den) :
    ∃ e : Int, exponentFor num den = max (-1074) e ∧
      (2 : ℚ) ^ 52 * 2 ^ e ≤ num / den ∧ (num : ℚ) / den < 2 ^ 53 * 2 ^ e := by
  obtain ⟨n, d, hscaled, hd, hquotient⟩ :=
    divTwoPow_eq num hden ((num.log2 : Int) - den.log2 - 53)
  obtain ⟨hnumlow, hnumhigh⟩ := log2_bounds hnum
  obtain ⟨hdenlow, hdenhigh⟩ := log2_bounds hden
  have hpower : (2 : ℚ) ^ ((num.log2 : Int) - den.log2 - 53) * 2 ^ 53 =
      2 ^ num.log2 / 2 ^ den.log2 := by
    rw [zpow_sub₀ two_ne_zero, zpow_sub₀ two_ne_zero, zpow_natCast, zpow_natCast]
    exact div_mul_cancel₀ _ (by norm_num)
  have hnumpos : (0 : ℚ) < 2 ^ num.log2 := by positivity
  have hdenpos : (0 : ℚ) < den := Nat.cast_pos.2 hden
  -- the fraction lies between a half and twice the quotient of the two powers
  have hlow : (2 : ℚ) ^ num.log2 / 2 ^ den.log2 ≤ 2 * (num / den) := by
    rw [← mul_div_assoc, div_le_div_iff₀ (by positivity) hdenpos]
    nlinarith
  have hhigh : (num : ℚ) / den < 2 * (2 ^ num.log2 / 2 ^ den.log2) := by
    rw [← mul_div_assoc, div_lt_div_iff₀ hdenpos (by positivity)]
    nlinarith
  rw [← hpower] at hlow hhigh
  have hpos : (0 : ℚ) < 2 ^ ((num.log2 : Int) - den.log2 - 53) := zpow_pos two_pos _
  rw [exponentFor]
  simp only [hscaled]
  split
  · rename_i hlarge
    refine ⟨_, rfl, ?_, ?_⟩
    · rw [Nat.le_div_iff_mul_le hd] at hlarge
      have hcast : (2 : ℚ) ^ 53 * d ≤ n := by exact_mod_cast hlarge
      rw [← le_div_iff₀ (Nat.cast_pos.2 hd), hquotient, le_div_iff₀ hpos] at hcast
      rw [zpow_add_one₀ two_ne_zero]
      linarith
    · rw [zpow_add_one₀ two_ne_zero]
      linarith
  · rename_i hsmall
    refine ⟨_, rfl, by linarith, ?_⟩
    rw [Nat.le_div_iff_mul_le hd, not_le] at hsmall
    have hcast : (n : ℚ) < 2 ^ 53 * d := by exact_mod_cast hsmall
    rw [← div_lt_iff₀ (Nat.cast_pos.2 hd), hquotient, div_lt_iff₀ hpos] at hcast
    exact hcast

/-! ## The rounding interval -/

/-- How far below a mantissa its rounding interval reaches, in units of the last place: half the way to
the double below, which is nearer if the mantissa is the least one. -/
def lowerReach (mantissa : Nat) (exponent : Int) : ℚ :=
  if mantissa = twoTo 52 ∧ -1074 < exponent then 1 / 4 else 1 / 2

/-- The values that are rounded to a positive double. -/
structure Nearest (mantissa : Nat) (exponent : Int) (v : ℚ) : Prop where
  low : (mantissa - lowerReach mantissa exponent) * 2 ^ exponent ≤ v
  high : v ≤ (mantissa + 1 / 2) * 2 ^ exponent
  odd : mantissa % 2 = 1 → (mantissa - 1 / 2 : ℚ) * 2 ^ exponent < v ∧
    v < (mantissa + 1 / 2) * 2 ^ exponent

variable {m : Nat} {e : Int} {num den : Nat}

theorem lowerReach_le : lowerReach m e ≤ 1 / 2 := by
  rw [lowerReach]
  split <;> norm_num

/-- What is rounded to a positive double is positive. -/
theorem Nearest.pos {v : ℚ} (hpos : 0 < m) (h : Nearest m e v) : 0 < v := by
  have hone : (1 : ℚ) ≤ m := by exact_mod_cast hpos
  have hreach := lowerReach_le (m := m) (e := e)
  exact (mul_pos (by linarith only [hone, hreach]) (zpow_pos two_pos e)).trans_le h.low

/-- A value in the rounding interval has the exponent of the double, or the one below it if it lies
below the double and the double has the least mantissa. -/
theorem exponentFor_of_nearest (hm : Canonical m e) (hnum : 0 < num) (hden : 0 < den)
    (h : Nearest m e (num / den)) :
    exponentFor num den = e ∨
      m = twoTo 52 ∧ -1074 < e ∧ exponentFor num den = e - 1 ∧ (num : ℚ) / den < 2 ^ 52 * 2 ^ e := by
  obtain ⟨e', he', hlow', hhigh'⟩ := exponentFor_eq hnum hden
  have hpos : (0 : ℚ) < 2 ^ e := zpow_pos two_pos e
  have hmax : (m : ℚ) + 1 ≤ 2 ^ 53 := by exact_mod_cast hm.lt
  have hlow := h.low
  have hhigh := h.high
  have hmono : ∀ a b : Int, a ≤ b → (2 : ℚ) ^ a ≤ 2 ^ b := fun a b hab =>
    zpow_le_zpow_right₀ one_le_two hab
  have hup : e' ≤ e := by
    by_contra hgt
    have hstep := hmono (e + 1) e' (by omega)
    rw [zpow_add_one₀ two_ne_zero] at hstep
    nlinarith
  have hleast := hm.least
  rcases eq_or_lt_of_le (show exponentFor num den ≤ e by omega) with heq | hlt
  · exact .inl heq
  · right
    have hnormal := hm.normal (by omega)
    have hbelow : (num : ℚ) / den < 2 ^ 52 * 2 ^ e := by
      have hstep := hmono (e' + 1) e (by omega)
      rw [zpow_add_one₀ two_ne_zero] at hstep
      linarith
    have hleastMantissa : m = twoTo 52 := by
      by_contra hne
      have hgreater : (2 : ℚ) ^ 52 + 1 ≤ m := by
        have hlt : twoTo 52 + 1 ≤ m := Nat.lt_of_le_of_ne hnormal (Ne.symm hne)
        exact_mod_cast hlt
      have hreach := lowerReach_le (m := m) (e := e)
      nlinarith
    have hreach := lowerReach_le (m := m) (e := e)
    have hcast : (m : ℚ) = 2 ^ 52 := by rw [hleastMantissa]; norm_cast
    refine ⟨hleastMantissa, by omega, ?_, hbelow⟩
    by_contra hne
    have hstep := hmono (e' + 1 + 1) e (by omega)
    rw [zpow_add_one₀ two_ne_zero, zpow_add_one₀ two_ne_zero] at hstep
    rw [hcast] at hlow
    nlinarith

/-- The word of a finite double is below that of infinity. -/
theorem word_le (hm : Canonical m e) : (e + 1074).toNat * twoTo 52 + m ≤ 2047 * twoTo 52 := by
  have hexponent : (e + 1074).toNat ≤ 2045 := by
    have := hm.greatest
    omega
  have hmantissa : m ≤ 2 * twoTo 52 := by
    rw [Nat.mul_comm, ← twoTo_succ]
    exact hm.lt.le
  calc (e + 1074).toNat * twoTo 52 + m
      ≤ 2045 * twoTo 52 + 2 * twoTo 52 :=
        Nat.add_le_add (Nat.mul_le_mul_right _ hexponent) hmantissa
    _ = 2047 * twoTo 52 := (Nat.add_mul _ _ _).symm

section

variable {n d : Nat} {v : ℚ} (hd : 0 < d)
include hd

/-- In units of the last place of a double, what is rounded to it is rounded to its mantissa. -/
theorem roundDiv_of_nearest (hquotient : (n : ℚ) / d = v / 2 ^ e) (h : Nearest m e v) :
    roundDiv n d = m := by
  have hunit : (0 : ℚ) < 2 ^ e := zpow_pos two_pos e
  have hslack := mul_nonneg (sub_nonneg.2 (lowerReach_le (m := m) (e := e))) hunit.le
  refine roundDiv_eq hd ?_ ?_ fun hodd => ?_
  · rw [hquotient, le_div_iff₀ hunit]
    linarith only [h.low, hslack]
  · rw [hquotient, div_le_iff₀ hunit]
    exact h.high
  · rw [hquotient, lt_div_iff₀ hunit, div_lt_iff₀ hunit]
    exact h.odd hodd

/-- Below the least mantissa the last place counts half, and the mantissa is rounded up to its end. -/
theorem roundDiv_of_nearest_below (hquotient : (n : ℚ) / d = v / 2 ^ (e - 1)) (hnormal : -1074 < e)
    (h : Nearest (twoTo 52) e v) (hbelow : v < 2 ^ 52 * 2 ^ e) : roundDiv n d = twoTo 53 := by
  have hhalf : (2 : ℚ) ^ e = 2 ^ (e - 1) * 2 := by
    rw [← zpow_add_one₀ two_ne_zero, sub_add_cancel]
  have hunit : (0 : ℚ) < 2 ^ (e - 1) := zpow_pos two_pos _
  have hlow := h.low
  have hcast : ((twoTo 53 : Nat) : ℚ) = 2 ^ 53 := by norm_cast
  have hcast52 : ((twoTo 52 : Nat) : ℚ) = 2 ^ 52 := by norm_cast
  rw [lowerReach, if_pos ⟨rfl, hnormal⟩, hhalf, hcast52] at hlow
  rw [hhalf] at hbelow
  refine roundDiv_eq hd ?_ ?_ fun hodd => ?_
  · rw [hquotient, le_div_iff₀ hunit, hcast]
    linarith only [hlow]
  · rw [hquotient, div_le_iff₀ hunit, hcast]
    linarith only [hbelow, hunit]
  · exact absurd hodd (by decide)

end

theorem bitsOfRatio_eq (hm : Canonical m e) (hpos : 0 < m) (hden : 0 < den)
    (h : Nearest m e (num / den)) :
    bitsOfRatio num den = (e + 1074).toNat * twoTo 52 + m := by
  have hnum : 0 < num := by
    refine Nat.pos_of_ne_zero fun hzero => (h.pos hpos).ne' ?_
    rw [hzero, Nat.cast_zero, zero_div]
  obtain ⟨n, d, hscaled, hd, hquotient⟩ := divTwoPow_eq num hden (exponentFor num den)
  have hbits : bitsOfRatio num den =
      min ((exponentFor num den + 1074).toNat * twoTo 52 + roundDiv n d) (2047 * twoTo 52) := by
    rw [bitsOfRatio, if_neg hnum.ne']
    simp only [hscaled]
  rw [hbits]
  rcases exponentFor_of_nearest hm hnum hden h with hexp | ⟨rfl, hgreater, hexp, hbelow⟩
  · rw [hexp] at hquotient
    rw [roundDiv_of_nearest hd hquotient h, hexp]
    exact Nat.min_eq_left (word_le hm)
  · have hplace : (e + 1074).toNat = (e - 1 + 1074).toNat + 1 := by omega
    have hdouble : twoTo 53 = twoTo 52 + twoTo 52 := (twoTo_succ 52).trans (Nat.mul_two _)
    have hword : (e - 1 + 1074).toNat * twoTo 52 + twoTo 53 =
        (e + 1074).toNat * twoTo 52 + twoTo 52 := by
      rw [hplace, Nat.succ_mul, hdouble, Nat.add_assoc]
    rw [hexp] at hquotient
    rw [roundDiv_of_nearest_below hd hquotient hgreater h hbelow, hexp, hword]
    exact Nat.min_eq_left (word_le hm)

end RandomTables.Number
