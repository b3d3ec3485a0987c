-- SUMMARY: Unsigned numerals are doubles without a sign; the text of an integer is read as it.
import RandomTables.Number.Reading
import RandomTables.Number.Text
import RandomTables.Proofs.Number.Shortest
import RandomTables.Proofs.Text.Cutting

/-!
# Integers as doubles

A double that equals an integer is written as that integer, without a point. This text is read as
the double again, unless it is a zero with a sign; and what an unsigned numeral is read as has no
sign.
-/
namespace RandomTables.Number

open Float.Model Float.Model.UnpackedFloat

/-! ## Words without a sign -/

theorem unpackSign_packComponents {spec : Format} {sign : Sign} {exponent mantissa} :
    unpackSign (packComponents spec sign exponent mantissa) = sign.toBitVec := by
  ext i hi
  obtain rfl : i = 0 := by omega
  simp [unpackSign, packComponents, BitVec.getElem_append, BitVec.getLsbD_append]

/-- No value has the negative sign; not-a-number has none. -/
def Unsigned : UnpackedFloat → Prop
  | .infinity sign => sign = .positive
  | .notANumber => True
  | .zero sign => sign = .positive
  | .finite sign _ _ _ => sign = .positive

theorem unpackSign_pack {u : UnpackedFloat} (h : Unsigned u) :
    unpackSign (UnpackedFloat.pack Format.binary64 u) = 0#1 := by
  cases u with
  | infinity sign =>
      obtain rfl : sign = .positive := h
      exact unpackSign_packComponents
  | notANumber => exact unpackSign_packComponents
  | zero sign =>
      obtain rfl : sign = .positive := h
      exact unpackSign_packComponents
  | finite sign m e hm =>
      obtain rfl : sign = .positive := h
      rw [UnpackedFloat.pack]
      dsimp only
      split
      · exact unpackSign_packComponents
      · split <;> exact unpackSign_packComponents

theorem unsigned_unpack {b : BitVec Format.binary64.numBits} (h : unpackSign b = 0#1) :
    Unsigned (UnpackedFloat.unpack Format.binary64 b) := by
  have hsign : Sign.ofBitVec (unpackSign b) = .positive := by
    rw [h]
    rfl
  unfold UnpackedFloat.unpack
  dsimp only
  rw [hsign]
  split
  · split
    · exact rfl
    · trivial
  · split
    · split <;> exact rfl
    · exact rfl

/-- A double made from a word without a sign is not negative. -/
theorem isNegative_ofBits (bits : Nat) (h : bits < twoTo 63) :
    (Double.ofFloat (Float.ofBits (UInt64.ofNat bits))).isNegative = false := by
  obtain ⟨h63, -, -⟩ := twoTo_fields
  have hgiven : (UInt64.ofNat bits).toBitVec.toNat / twoTo 63 % 2 = 0 := by
    have hword : (UInt64.ofNat bits).toNat = bits :=
      UInt64.toNat_ofNat_of_lt' (by rw [h63] at h; exact h.trans (by decide))
    rw [UInt64.toNat_toBitVec, hword, Nat.div_eq_of_lt h]
  have hword : (Float.ofBits (UInt64.ofNat bits)).toBits.toNat / twoTo 63 % 2 = 0 := by
    have hsign := unpackSign_pack (unsigned_unpack
      (BitVec.eq_of_toNat_eq ((toNat_unpackSign _).trans hgiven)))
    exact (toNat_unpackSign _).symm.trans (congrArg BitVec.toNat hsign)
  rw [Double.ofFloat, Double.ofBits]
  simp only [hword, Nat.zero_ne_one, decide_false]
  split
  · split <;> rfl
  · split <;> rfl

/-! ## Numerals without a sign -/

theorem isNegative_ofRatio (num den : Nat) :
    (Double.ofFloat (ofRatio false num den)).isNegative = false := by
  obtain ⟨h63, h52, -⟩ := twoTo_fields
  have hbits : bitsOfRatio num den ≤ 2047 * twoTo 52 := by
    unfold bitsOfRatio
    split
    · exact Nat.zero_le _
    · exact Nat.min_le_right _ _
  refine isNegative_ofBits _ ?_
  simp only [Bool.false_eq_true, if_false]
  omega

theorem isNegative_infinity : (Double.ofFloat (infinity false)).isNegative = false :=
  isNegative_ofBits 0x7ff0000000000000 (by decide)

theorem isNegative_ofDecimal (digits : Nat) (power : Int) :
    (Double.ofFloat (ofDecimal false digits power)).isNegative = false := by
  unfold ofDecimal
  dsimp only
  split
  · exact isNegative_ofRatio _ _
  split
  · exact isNegative_infinity
  split <;> exact isNegative_ofRatio _ _

theorem isNegative_readMagnitude {cs : List Char} {x : Float} (h : readMagnitude false cs = some x) :
    (Double.ofFloat x).isNegative = false := by
  unfold readMagnitude at h
  dsimp only at h
  split at h
  · cases h
    exact isNegative_infinity
  split at h
  · cases h
    exact isNegative_ofBits 0x7ff8000000000000 (by decide)
  -- with a point or without one, the digits are read as a decimal number
  have hdecimal : ∀ (empty : Bool) (e : Option Int) (digits : Nat) (places : Int),
      (if empty then none else e.map fun e => ofDecimal false digits (e - places)) = some x →
        (Double.ofFloat x).isNegative = false := by
    intro empty e digits places hx
    split at hx
    · cases hx
    · obtain ⟨e, -, rfl⟩ := Option.map_eq_some_iff.1 hx
      exact isNegative_ofDecimal _ _
  split at h <;> exact hdecimal _ _ _ _ h

/-- Underscores are left out, and nothing is added. -/
theorem mem_of_dropUnderscores {after : Bool} {cs kept : List Char}
    (h : dropUnderscores after cs = some kept) : ∀ c ∈ kept, c ∈ cs := by
  fun_induction dropUnderscores after cs generalizing kept with
  | case1 =>
      cases h
      exact fun _ hc => hc
  | case2 after c rest hdigit ih => exact fun d hd => List.mem_cons_of_mem _ (ih h d hd)
  | case3 => cases h
  | case4 => cases h
  | case5 after c rest hplain ih =>
      obtain ⟨kept, hkept, rfl⟩ := Option.map_eq_some_iff.1 h
      exact fun d hd => List.mem_cons.2 ((List.mem_cons.1 hd).imp_right (ih hkept d))

/-- A text of digits and points is read as a number without a sign. -/
theorem isNegative_readFloat {cs : List Char} (hcs : ∀ c ∈ cs, Text.isDigit c = true ∨ c = '.')
    {x : Float} (h : readFloat cs = some x) : (Double.ofFloat x).isNegative = false := by
  obtain ⟨kept, hkept, hread⟩ := Option.bind_eq_some_iff.1 h
  have hbare : ∀ c ∈ bareNumeral cs, c ∈ cs := by
    intro c hc
    have hc := List.dropWhile_sublist _ |>.mem (List.mem_reverse.1 hc)
    exact List.dropWhile_sublist _ |>.mem (List.mem_reverse.1 hc)
  have hplain : ∀ c ∈ kept, c ≠ '-' ∧ c ≠ '+' := by
    intro c hc
    obtain ⟨d, hd, rfl⟩ := List.mem_map.1 (mem_of_dropUnderscores hkept c hc)
    unfold asciiDigit
    split
    · have hdigits : ∀ n < 10, Char.ofNat (48 + n) ≠ '-' ∧ Char.ofNat (48 + n) ≠ '+' := by decide
      exact hdigits _ (Text.decimalValue_lt d)
    · rcases hcs d (hbare d hd) with hdigit | rfl
      · have hsigns : Text.isDigit '-' = false ∧ Text.isDigit '+' = false :=
          ⟨Text.isDigit_of_mem_marks (by decide), Text.isDigit_of_mem_marks (by decide)⟩
        refine ⟨?_, ?_⟩
        · rintro rfl
          exact absurd hdigit (ne_true_of_eq_false hsigns.1)
        · rintro rfl
          exact absurd hdigit (ne_true_of_eq_false hsigns.2)
      · decide
  have hsign : takeSign kept = (false, kept) := by
    cases kept with
    | nil => rfl
    | cons c rest =>
        have hc := hplain c List.mem_cons_self
        simp [takeSign, hc.1, hc.2]
  rw [hsign] at hread
  exact isNegative_readMagnitude hread

/-! ## The text of an integer -/

section

variable {x : Float} {n : Nat}

theorem value_of_integer {m : Nat} {e : Int}
    (h : (Double.finite false m e).integer? = some (n : Int)) : (m : ℚ) * 2 ^ e = n := by
  have hcast : ∀ j : Nat, ((twoTo j : Nat) : ℚ) = 2 ^ j := fun j => Nat.cast_pow 2 j
  simp only [Double.integer?, signed, Bool.false_eq_true, if_false] at h
  split at h
  · rename_i hnonneg
    obtain ⟨j, rfl⟩ := Int.eq_ofNat_of_zero_le hnonneg
    have hvalue : m * twoTo j = n := by exact_mod_cast Option.some.inj h
    rw [← hvalue, zpow_natCast, Nat.cast_mul, hcast]
  split at h
  · rename_i hnegative hdivides
    obtain ⟨j, rfl⟩ : ∃ j : Nat, e = -(j : Int) := ⟨(-e).toNat, by omega⟩
    rw [neg_neg, Int.toNat_natCast] at h hdivides
    have hvalue : m / twoTo j = n := by exact_mod_cast Option.some.inj h
    have hproduct : n * twoTo j = m := by
      rw [← hvalue]
      exact Nat.div_mul_cancel (Nat.dvd_of_mod_eq_zero hdivides)
    have hpower : (2 : ℚ) ^ j ≠ 0 := pow_ne_zero j two_ne_zero
    rw [← hproduct, zpow_neg, zpow_natCast, Nat.cast_mul, hcast, mul_assoc, mul_inv_cancel₀ hpower,
      mul_one]
  · cases h

/-- A double that equals a natural number and is not negative is the double nearest to it. -/
theorem ofDecimal_natural (hn : (Double.ofFloat x).integer? = some (n : Int))
    (hsign : (Double.ofFloat x).isNegative = false) : ofDecimal false n 0 = x := by
  rcases hx : Double.ofFloat x with _ | _ | ⟨negative, m, e⟩
  · rw [hx] at hn
    cases hn
  · rw [hx] at hn
    cases hn
  rw [hx] at hn hsign
  obtain rfl : negative = false := hsign
  obtain ⟨hm, hbits⟩ := eq_ofBits_of_finite hx
  have hvalue := value_of_integer hn
  have hunit : (0 : ℚ) < 2 ^ e := zpow_pos two_pos e
  rcases Nat.eq_zero_or_pos m with rfl | hpos
  · obtain rfl : n = 0 := by
      rw [Nat.cast_zero, zero_mul] at hvalue
      exact_mod_cast hvalue.symm
    obtain rfl : e = -1074 := by
      have hleast := hm.least
      have hnormal := hm.normal
      have : ¬ twoTo 52 ≤ 0 := by decide
      omega
    rw [hbits, ofDecimal, if_pos (.inl rfl)]
    rfl
  · have hreach : 0 < lowerReach m e := by
      unfold lowerReach
      split <;> norm_num
    have hnearest : Nearest m e (n * 10 ^ (0 : Int)) := by
      rw [zpow_zero, mul_one, ← hvalue]
      refine .of_strict ?_ ?_
      · exact mul_lt_mul_of_pos_right (by linarith only [hreach]) hunit
      · exact mul_lt_mul_of_pos_right (by linarith only) hunit
    rw [ofDecimal_eq hm hpos false hnearest, hbits]

theorem readFloat_toDigits (n : Nat) :
    readFloat (Nat.toDigits 10 n) = some (ofDecimal false n 0) := by
  have hpositive : decide ((n : Int) < 0) = false := decide_eq_false (Int.not_lt.2 n.cast_nonneg)
  have hnumeral : Numeral.ofInt n = ⟨false, Nat.toDigits 10 n, [], none⟩ := by
    rw [Numeral.ofInt, hpositive, Int.natAbs_natCast]
  have hchars : (Numeral.ofInt n).chars = Nat.toDigits 10 n := by
    rw [hnumeral]
    simp [Numeral.chars, Numeral.sign, Numeral.fractionPart, Numeral.exponentPart]
  have hread := Numeral.readFloat_chars (Numeral.valid_ofInt n)
  rw [hchars, hnumeral] at hread
  simpa [Numeral.power, numeral_toDigits] using hread

/-- The text of a double that equals a natural number is its digits, and these are read as the
double if it is not negative. -/
theorem numberText_natural (hn : (Double.ofFloat x).integer? = some (n : Int)) :
    (numberText x).toList = Nat.toDigits 10 n := by
  rw [numberText, hn]
  exact Nat.toList_repr

end

end RandomTables.Number
