-- SUMMARY: Decimal numerals taken apart, and what they are read as.
import Mathlib.Algebra.Ring.Nat
import RandomTables.Json.Reader
import RandomTables.Proofs.Json.Parts
import RandomTables.Proofs.Json.Quoting

/-!
# Numerals

A numeral is a sign, a whole part without leading zeros, a fraction and an exponent. Text that is made
of these parts is read as the double nearest to its value, and JSON text with a numeral in front is
read as an integer or a double, depending on which parts there are.
-/
namespace RandomTables

namespace Number

/-! ## Digits -/

theorem mem_of_isDigit {c : Char} (h : c.isDigit = true) :
    c ∈ ['0', '1', '2', '3', '4', '5', '6', '7', '8', '9'] := by
  have hbounds : 48 ≤ c.toNat ∧ c.toNat ≤ 57 := by
    simp only [Char.isDigit, ge_iff_le, Bool.and_eq_true, decide_eq_true_eq] at h
    exact h
  have hcases : ∀ n < 58, 48 ≤ n →
      Char.ofNat n ∈ ['0', '1', '2', '3', '4', '5', '6', '7', '8', '9'] := by decide
  rw [← Char.ofNat_toNat c]
  exact hcases _ (Nat.lt_succ_of_le hbounds.2) hbounds.1

/-- What holds of the ten ASCII digits. -/
theorem forall_isDigit {P : Char → Prop} [DecidablePred P]
    (h : ['0', '1', '2', '3', '4', '5', '6', '7', '8', '9'].all (fun c => decide (P c)) = true)
    {c : Char} (hc : c.isDigit = true) : P c :=
  of_decide_eq_true (List.all_eq_true.1 h c (mem_of_isDigit hc))

theorem decimalValue_of_isDigit {c : Char} (h : c.isDigit = true) :
    Text.decimalValue c = c.toNat - 48 :=
  forall_isDigit (P := fun c => Text.decimalValue c = c.toNat - 48) rfl h

/-- A list is cut where a property ends to hold. -/
theorem span_eq {α : Type} {p : α → Bool} {xs rest : List α} (h : ∀ x ∈ xs, p x = true)
    (hrest : ∀ x ∈ rest.head?, p x = false) :
    (xs ++ rest).takeWhile p = xs ∧ (xs ++ rest).dropWhile p = rest := by
  have hcut : rest.takeWhile p = [] ∧ rest.dropWhile p = rest := by
    cases rest with
    | nil => exact ⟨rfl, rfl⟩
    | cons x rest =>
        have hx := ne_true_of_eq_false (hrest x rfl)
        exact ⟨List.takeWhile_cons_of_neg hx, List.dropWhile_cons_of_neg hx⟩
  rw [List.takeWhile_append_of_pos h, List.dropWhile_append_of_pos h, hcut.1, hcut.2,
    List.append_nil]
  exact ⟨rfl, rfl⟩

/-! ## Numerals -/

/-- A numeral by its parts, of which the fraction and the exponent may be missing. -/
structure Numeral where
  negative : Bool
  whole : List Char
  fraction : List Char
  /-- Whether the exponent is negative, and its digits. -/
  exponent : Option (Bool × List Char)

namespace Numeral

def sign (n : Numeral) : List Char := if n.negative then ['-'] else []

def fractionPart (n : Numeral) : List Char :=
  if n.fraction.isEmpty then [] else '.' :: n.fraction

def exponentPart (n : Numeral) : List Char :=
  match n.exponent with
  | none => []
  | some (negative, digits) => 'e' :: (if negative then '-' else '+') :: digits

def chars (n : Numeral) : List Char := n.sign ++ n.whole ++ n.fractionPart ++ n.exponentPart

/-- The power of ten that the digits are multiplied by. -/
def power (n : Numeral) : Int :=
  (match n.exponent with
    | none => 0
    | some (negative, digits) => signed negative (Text.numeral digits)) - n.fraction.length

/-- Parts of the right form: nothing but digits, and no leading zero but a single one. -/
structure Valid (n : Numeral) : Prop where
  whole : n.whole = ['0'] ∨ n.whole ≠ [] ∧ n.whole.head? ≠ some '0'
  digits : ∀ c ∈ n.whole ++ n.fraction, c.isDigit = true
  exponent : ∀ negative digits, n.exponent = some (negative, digits) →
    digits ≠ [] ∧ ∀ c ∈ digits, c.isDigit = true

/-- The characters of numerals. -/
def symbols : List Char := ['0', '1', '2', '3', '4', '5', '6', '7', '8', '9', '-', '+', '.', 'e']

variable {n : Numeral}

theorem mem_symbols_of_isDigit {c : Char} (h : c.isDigit = true) : c ∈ symbols :=
  forall_isDigit (P := (· ∈ symbols)) (by decide) h

namespace Valid

variable (hn : n.Valid)
include hn

theorem whole_digits : ∀ c ∈ n.whole, c.isDigit = true :=
  fun c hc => hn.digits c (List.mem_append_left _ hc)

theorem fraction_digits : ∀ c ∈ n.fraction, c.isDigit = true :=
  fun c hc => hn.digits c (List.mem_append_right _ hc)

theorem whole_ne_nil : n.whole ≠ [] := by
  rcases hn.whole with h | h
  · rw [h]
    exact List.cons_ne_nil _ _
  · exact h.1

theorem mem_symbols : ∀ c ∈ n.chars, c ∈ symbols := by
  intro c hc
  simp only [chars, List.mem_append] at hc
  rcases hc with ((hc | hc) | hc) | hc
  · rw [sign] at hc
    split at hc
    · rw [List.mem_singleton.1 hc]
      decide
    · cases hc
  · exact mem_symbols_of_isDigit (hn.whole_digits c hc)
  · rw [fractionPart] at hc
    split at hc
    · cases hc
    · rcases List.mem_cons.1 hc with rfl | hc
      · decide
      · exact mem_symbols_of_isDigit (hn.fraction_digits c hc)
  · rw [exponentPart] at hc
    split at hc
    · cases hc
    · rename_i negative digits hexponent
      rcases List.mem_cons.1 hc with rfl | hc
      · decide
      · rcases List.mem_cons.1 hc with rfl | hc
        · cases negative <;> decide
        · exact mem_symbols_of_isDigit ((hn.exponent _ _ hexponent).2 c hc)

end Valid

/-! ## Reading doubles -/

theorem bareNumeral_of_symbols {cs : List Char} (h : ∀ c ∈ cs, c ∈ symbols) :
    bareNumeral cs = cs := by
  have hbare : symbols.all (fun c => !surroundsNumeral c) = true := rfl
  have hdrop : ∀ cs : List Char, (∀ c ∈ cs, c ∈ symbols) → cs.dropWhile surroundsNumeral = cs := by
    intro cs hcs
    cases cs with
    | nil => rfl
    | cons c rest =>
        rw [List.dropWhile_cons_of_neg]
        have hfirst := List.all_eq_true.1 hbare c (hcs c List.mem_cons_self)
        simpa using hfirst
  have hreverse : ∀ c ∈ cs.reverse, c ∈ symbols := fun c hc => h c (List.mem_reverse.1 hc)
  rw [bareNumeral, hdrop cs h, hdrop _ hreverse, List.reverse_reverse]

theorem map_asciiDigit_of_symbols {cs : List Char} (h : ∀ c ∈ cs, c ∈ symbols) :
    cs.map asciiDigit = cs := by
  have hsame : symbols.all (fun c => asciiDigit c == c) = true := rfl
  have heach : ∀ c ∈ cs, asciiDigit c = c :=
    fun c hc => eq_of_beq (List.all_eq_true.1 hsame c (h c hc))
  exact (List.map_congr_left heach).trans (List.map_id' cs)

theorem dropUnderscores_of_symbols {cs : List Char} (h : ∀ c ∈ cs, c ∈ symbols)
    (afterDigit : Bool) : dropUnderscores afterDigit cs = some cs := by
  induction cs generalizing afterDigit with
  | nil => rfl
  | cons c rest ih =>
      rw [List.forall_mem_cons] at h
      have hplain : c ≠ '_' := by
        rintro rfl
        exact absurd h.1 (by decide)
      rw [dropUnderscores, ih h.2]
      · rfl
      · exact hplain

/-- What follows the digits of the whole part begins with no digit. -/
theorem head_fractionPart : ∀ c ∈ (n.fractionPart ++ n.exponentPart).head?, c.isDigit = false := by
  intro c hc
  rw [fractionPart] at hc
  split at hc
  · rw [List.nil_append, exponentPart] at hc
    split at hc
    · cases hc
    · cases hc
      decide
  · cases hc
    decide

theorem head_exponentPart : ∀ c ∈ n.exponentPart.head?, c.isDigit = false := by
  intro c hc
  rw [exponentPart] at hc
  split at hc
  · cases hc
  · cases hc
    decide

variable (hn : n.Valid)
include hn

theorem readExponent_exponentPart :
    readExponent n.exponentPart = some (n.power + n.fraction.length) := by
  rw [exponentPart, power]
  cases hexponent : n.exponent with
  | none => simp only [readExponent, Int.zero_sub, Int.add_left_neg]
  | some exponent =>
      obtain ⟨negative, digits⟩ := exponent
      obtain ⟨hne, hdigits⟩ := hn.exponent _ _ hexponent
      have hall : digits.all Char.isDigit = true := List.all_eq_true.2 hdigits
      have hsome : digits.isEmpty = false := by
        rw [List.isEmpty_eq_false_iff]
        exact hne
      cases negative <;> simp [readExponent, takeSign, hall, hsome]

theorem readMagnitude_of_valid (negative : Bool) :
    readMagnitude negative (n.whole ++ n.fractionPart ++ n.exponentPart) =
      some (ofDecimal negative (Text.numeral (n.whole ++ n.fraction)) n.power) := by
  obtain ⟨c, rest, hwhole⟩ := List.exists_cons_of_ne_nil hn.whole_ne_nil
  have hc : c.isDigit = true := hn.whole_digits c (hwhole ▸ List.mem_cons_self)
  have hword : c.toLower ≠ 'i' ∧ c.toLower ≠ 'n' :=
    forall_isDigit (P := fun c => c.toLower ≠ 'i' ∧ c.toLower ≠ 'n') (by decide) hc
  have hsome : n.whole.isEmpty = false := by rw [hwhole, List.isEmpty_cons]
  have hinfinity : (n.whole ++ n.fractionPart ++ n.exponentPart).map Char.toLower ≠ "inf".toList ∧
      (n.whole ++ n.fractionPart ++ n.exponentPart).map Char.toLower ≠ "infinity".toList ∧
      (n.whole ++ n.fractionPart ++ n.exponentPart).map Char.toLower ≠ "nan".toList := by
    rw [hwhole]
    refine ⟨fun h => hword.1 ?_, fun h => hword.1 ?_, fun h => hword.2 ?_⟩
    all_goals exact (List.cons.inj h).1
  have hspan := span_eq hn.whole_digits (head_fractionPart (n := n))
  rw [← List.append_assoc] at hspan
  rw [readMagnitude]
  dsimp only
  rw [if_neg (not_or.2 ⟨hinfinity.1, hinfinity.2.1⟩), if_neg hinfinity.2.2, hspan.1, hspan.2, hsome]
  have hread := readExponent_exponentPart hn
  by_cases hfraction : n.fraction = []
  · have hpart : n.fractionPart = [] := by rw [fractionPart, hfraction, List.isEmpty_nil, if_pos rfl]
    rw [hpart, List.nil_append]
    split
    · rename_i hpoint
      rw [exponentPart] at hpoint
      split at hpoint <;> cases hpoint
    · rw [hread, hfraction]
      simp
  · have hpart : n.fractionPart = '.' :: n.fraction := by
      rw [fractionPart, if_neg (List.isEmpty_iff.not.2 hfraction)]
    obtain ⟨htake, hdrop⟩ := span_eq hn.fraction_digits (head_exponentPart (n := n))
    rw [hpart, List.cons_append]
    simp only [htake, hdrop, hread]
    simp

/-- A numeral is read as the double nearest to its value. -/
theorem readFloat_chars :
    readFloat n.chars =
      some (ofDecimal n.negative (Text.numeral (n.whole ++ n.fraction)) n.power) := by
  have hsymbols := hn.mem_symbols
  have hsign : takeSign n.chars =
      (n.negative, n.whole ++ n.fractionPart ++ n.exponentPart) := by
    rw [chars, sign]
    split
    · rename_i hnegative
      rw [hnegative]
      rfl
    · rename_i hnegative
      obtain ⟨c, rest, hwhole⟩ := List.exists_cons_of_ne_nil hn.whole_ne_nil
      have hc : c.isDigit = true := hn.whole_digits c (hwhole ▸ List.mem_cons_self)
      have hplain : c ≠ '-' ∧ c ≠ '+' :=
        forall_isDigit (P := fun c => c ≠ '-' ∧ c ≠ '+') (by decide) hc
      rw [eq_false_of_ne_true hnegative, hwhole]
      simp [takeSign, hplain.1, hplain.2]
  rw [readFloat, bareNumeral_of_symbols hsymbols, map_asciiDigit_of_symbols hsymbols,
    dropUnderscores_of_symbols hsymbols, Option.bind_some, hsign]
  exact readMagnitude_of_valid hn n.negative

end Numeral

/-! ## Integers -/

theorem tenTo_eq_pow (n : Nat) : tenTo n = 10 ^ n := rfl

theorem isDigit_toDigits {n : Nat} : ∀ c ∈ Nat.toDigits 10 n, c.isDigit = true :=
  fun _ hc => Nat.isDigit_of_mem_toDigits (by decide) (by decide) hc

/-- The digits of a number write it. -/
theorem numeral_toDigits (n : Nat) : Text.numeral (Nat.toDigits 10 n) = n := by
  have hfold : ∀ (digits : List Char) (start : Nat), (∀ c ∈ digits, c.isDigit = true) →
      digits.foldl (fun n c => 10 * n + Text.decimalValue c) start =
        Nat.ofDigitChars 10 digits start := by
    intro digits start hdigits
    induction digits generalizing start with
    | nil => rfl
    | cons c digits ih =>
        rw [List.forall_mem_cons] at hdigits
        rw [List.foldl_cons, ih _ hdigits.2, decimalValue_of_isDigit hdigits.1]
        rfl
  rw [Text.numeral, hfold _ _ isDigit_toDigits, Nat.ofDigitChars_toDigits (by decide) (by decide)]

/-- Only zero begins with a zero. -/
theorem head_toDigits {n : Nat} (h : 0 < n) : (Nat.toDigits 10 n).head? ≠ some '0' := by
  induction n using Nat.strongRecOn with
  | ind n ih =>
      rw [Nat.toDigits_eq_if (by decide)]
      split
      · rename_i hsmall
        have hdigit : ∀ m < 10, 0 < m → m.digitChar ≠ '0' := by decide
        exact fun heq => hdigit n hsmall h (Option.some.inj heq)
      · rename_i hlarge
        have hpos : 0 < n / 10 := by omega
        have hrest := ih (n / 10) (by omega) hpos
        rw [List.head?_append_of_ne_nil _ Nat.toDigits_ne_nil]
        exact hrest

/-- The numeral of an integer. -/
def Numeral.ofInt (n : Int) : Numeral := ⟨decide (n < 0), Nat.toDigits 10 n.natAbs, [], none⟩

namespace Numeral

theorem valid_ofInt (n : Int) : (ofInt n).Valid where
  whole := by
    by_cases hzero : n.natAbs = 0
    · left
      rw [ofInt, hzero]
      rfl
    · exact .inr ⟨Nat.toDigits_ne_nil, head_toDigits (Nat.pos_of_ne_zero hzero)⟩
  digits c hc := by
    rw [ofInt, List.append_nil] at hc
    exact isDigit_toDigits c hc
  exponent _ _ h := nomatch h

theorem chars_ofInt (n : Int) : (ofInt n).chars = (toString n).toList := by
  have hparts : (ofInt n).chars =
      (if decide (n < 0) then ['-'] else []) ++ Nat.toDigits 10 n.natAbs := by
    simp [chars, sign, fractionPart, exponentPart, ofInt]
  rw [hparts]
  cases n with
  | ofNat m =>
      have hnonneg : decide (Int.ofNat m < 0) = false :=
        decide_eq_false (Int.not_lt.2 (Int.natCast_nonneg m))
      rw [hnonneg]
      exact Nat.toList_repr.symm
  | negSucc m =>
      have hnegative : decide (Int.negSucc m < 0) = true :=
        decide_eq_true (Int.negSucc_lt_zero m)
      have htext : (toString (Int.negSucc m)).toList = '-' :: (m + 1).repr.toList := by
        change ("-" ++ (m + 1).repr).toList = _
        rw [String.toList_append]
        rfl
      rw [hnegative, htext, Nat.toList_repr]
      rfl

theorem value_ofInt (n : Int) : signed (ofInt n).negative (Text.numeral (ofInt n).whole) = n := by
  rw [ofInt, numeral_toDigits, signed]
  split
  · rename_i h
    rw [decide_eq_true_eq] at h
    omega
  · rename_i h
    rw [decide_eq_true_eq] at h
    omega

theorem length_ofInt {n : Int} (h : isWritable n = true) : (ofInt n).whole.length ≤ mostDigits := by
  rw [isWritable, decide_eq_true_eq, tenTo_eq_pow] at h
  exact (Nat.length_toDigits_le_iff (by decide) (by decide)).2 h

end Numeral

end Number

/-! ## Numerals in JSON text -/

namespace Json

open Number

/-- What may follow a number: the end of the text, or none of the characters that could go on with
it. -/
def Delimited (rest : List Nat) : Prop :=
  ∀ code ∈ rest.head?, isDigitCode code = false ∧ code ≠ 46 ∧ code ≠ 69 ∧ code ≠ 101

variable {n : Numeral} {rest : List Nat}

/-- The code points of ASCII characters. -/
abbrev ascii (cs : List Char) : List Nat := cs.map Char.toNat

theorem isDigitCode_toNat {c : Char} (h : c.isDigit = true) : isDigitCode c.toNat = true :=
  forall_isDigit (P := fun c => isDigitCode c.toNat = true) (by decide) h

theorem spanDigits_ascii {digits : List Char} (h : ∀ c ∈ digits, c.isDigit = true)
    (hrest : ∀ code ∈ rest.head?, isDigitCode code = false) :
    spanDigits (ascii digits ++ rest) = (ascii digits, rest) := by
  have hcodes : ∀ code ∈ ascii digits, isDigitCode code = true := by
    intro code hcode
    obtain ⟨c, hc, rfl⟩ := List.mem_map.1 hcode
    exact isDigitCode_toNat (h c hc)
  obtain ⟨htake, hdrop⟩ := span_eq hcodes hrest
  rw [spanDigits, htake, hdrop]

theorem wholePart_ascii (hn : n.Valid) (hrest : ∀ code ∈ rest.head?, isDigitCode code = false) :
    wholePart (ascii n.whole ++ rest) = some (ascii n.whole, rest) := by
  rcases hn.whole with hzero | ⟨hne, hhead⟩
  · rw [hzero]
    rfl
  · have hspan := spanDigits_ascii hn.whole_digits hrest
    obtain ⟨c, digits, hwhole⟩ := List.exists_cons_of_ne_nil hne
    have hc : c.isDigit = true := hn.whole_digits c (hwhole ▸ List.mem_cons_self)
    have hlarge : c.toNat ≠ 48 := by
      intro h
      rw [hwhole] at hhead
      exact hhead (congrArg some (Char.toNat_inj.1 h))
    rw [hwhole] at hspan ⊢
    simp only [ascii, List.map_cons, List.cons_append] at hspan ⊢
    simp only [wholePart, isDigitCode_toNat hc, hspan, if_true]

theorem fractionPart_ascii (hn : n.Valid)
    (hrest : ∀ code ∈ rest.head?, isDigitCode code = false ∧ code ≠ 46) :
    fractionPart (ascii n.fractionPart ++ rest) = (ascii n.fractionPart, rest) := by
  by_cases hfraction : n.fraction = []
  · have hpart : n.fractionPart = [] := by
      rw [Numeral.fractionPart, hfraction, List.isEmpty_nil, if_pos rfl]
    rw [hpart]
    cases rest with
    | nil => rfl
    | cons code rest =>
        have hcode : code ≠ 46 := (hrest code rfl).2
        simp [fractionPart, hcode]
  · have hpart : n.fractionPart = '.' :: n.fraction := by
      rw [Numeral.fractionPart, if_neg (List.isEmpty_iff.not.2 hfraction)]
    have hspan := spanDigits_ascii hn.fraction_digits fun code h => (hrest code h).1
    have hpoint : ascii n.fractionPart = 46 :: ascii n.fraction := by rw [hpart]; rfl
    rw [hpoint, List.cons_append, fractionPart, hspan]
    simp [hfraction]

theorem exponentPart_ascii (hn : n.Valid) (hrest : Delimited rest) :
    exponentPart (ascii n.exponentPart ++ rest) = (ascii n.exponentPart, rest) := by
  cases hexponent : n.exponent with
  | none =>
      have hpart : n.exponentPart = [] := by rw [Numeral.exponentPart, hexponent]
      rw [hpart]
      cases rest with
      | nil => rfl
      | cons code rest =>
          obtain ⟨-, -, hupper, hlower⟩ := hrest code rfl
          simp [exponentPart, hupper, hlower]
  | some exponent =>
      obtain ⟨negative, digits⟩ := exponent
      obtain ⟨hne, hdigits⟩ := hn.exponent _ _ hexponent
      have hspan := spanDigits_ascii hdigits fun code h => (hrest code h).1
      have hpart : ascii n.exponentPart = 101 :: (if negative then 45 else 43) :: ascii digits := by
        rw [Numeral.exponentPart, hexponent]
        cases negative <;> rfl
      rw [hpart]
      cases negative <;> simp [exponentPart, hspan, hne]

theorem head_exponentPart_ascii (hrest : Delimited rest) :
    ∀ code ∈ (ascii n.exponentPart ++ rest).head?, isDigitCode code = false ∧ code ≠ 46 := by
  cases hexponent : n.exponent with
  | none =>
      have hpart : n.exponentPart = [] := by rw [Numeral.exponentPart, hexponent]
      rw [hpart]
      exact fun code h => ⟨(hrest code h).1, (hrest code h).2.1⟩
  | some exponent =>
      rw [Numeral.exponentPart, hexponent]
      rintro code ⟨⟩
      decide

theorem head_fractionPart_ascii (hrest : Delimited rest) :
    ∀ code ∈ (ascii n.fractionPart ++ (ascii n.exponentPart ++ rest)).head?,
      isDigitCode code = false := by
  rw [Numeral.fractionPart]
  split
  · exact fun code h => (head_exponentPart_ascii hrest code h).1
  · rintro code ⟨⟩
    decide

/-- A number with its sign in front. -/
theorem readNumber_apply (negative : Bool) (position : Nat) {codes : List Nat}
    (h : codes.head? ≠ some 45) :
    readNumber ⟨position, (if negative then [45] else []) ++ codes⟩ =
      match wholePart codes with
      | none => refuse .expectingValue position
      | some (whole, rest) =>
        let (fraction, rest) := fractionPart rest
        let (exponent, rest) := exponentPart rest
        let codes := (if negative then [45] else []) ++ whole ++ fraction ++ exponent
        let after : Cursor := ⟨position + codes.length, rest⟩
        if fraction.isEmpty && exponent.isEmpty then
          match readInteger negative (whole.map Char.ofNat) with
          | .ok n => .ok (.int n, after)
          | .error f => .error (.breakdown f)
        else
          .ok (.float ((readFloat (codes.map Char.ofNat)).getD 0), after) := by
  cases negative with
  | true => rfl
  | false =>
      cases codes with
      | nil => rfl
      | cons code codes =>
          have hcode : code ≠ 45 := fun hminus => h (congrArg some hminus)
          simp only [readNumber, Bool.false_eq_true, if_false, List.nil_append, List.cons.injEq,
            hcode, false_and, imp_self, implies_true]
          rfl

/-- A number is cut where the numeral ends. -/
theorem readNumber_ascii (hn : n.Valid) (hrest : Delimited rest) (position : Nat) :
    readNumber ⟨position, ascii n.chars ++ rest⟩ =
      if (ascii n.fractionPart).isEmpty && (ascii n.exponentPart).isEmpty then
        match readInteger n.negative n.whole with
        | .ok m => .ok (.int m, ⟨position + n.chars.length, rest⟩)
        | .error f => .error (.breakdown f)
      else .ok (.float ((readFloat n.chars).getD 0), ⟨position + n.chars.length, rest⟩) := by
  have hwhole := wholePart_ascii hn (head_fractionPart_ascii (n := n) hrest)
  have hfraction := fractionPart_ascii hn (head_exponentPart_ascii (n := n) hrest)
  have hexponent := exponentPart_ascii hn hrest
  have hsign : ascii n.sign = if n.negative then [45] else [] := by
    rw [Numeral.sign]
    split <;> rfl
  have hchars : ascii n.chars ++ rest = (if n.negative then [45] else []) ++
      (ascii n.whole ++ (ascii n.fractionPart ++ (ascii n.exponentPart ++ rest))) := by
    rw [← hsign]
    simp only [Numeral.chars, ascii, List.map_append, List.append_assoc]
  have hcodes : (if n.negative then [45] else []) ++ ascii n.whole ++ ascii n.fractionPart ++
      ascii n.exponentPart = ascii n.chars := by
    rw [← hsign]
    simp only [Numeral.chars, ascii, List.map_append]
  have hback : ∀ cs : List Char, (ascii cs).map Char.ofNat = cs := fun cs => by
    simp [ascii, Function.comp_def, Char.ofNat_toNat]
  have hlength : (ascii n.chars).length = n.chars.length := List.length_map _
  have hdigit : (ascii n.whole ++ (ascii n.fractionPart ++ (ascii n.exponentPart ++ rest))).head? ≠
      some 45 := by
    obtain ⟨c, digits, hcons⟩ := List.exists_cons_of_ne_nil hn.whole_ne_nil
    have hc : c.isDigit = true := hn.whole_digits c (hcons ▸ List.mem_cons_self)
    have hminus : c.toNat ≠ 45 := forall_isDigit (P := fun c => c.toNat ≠ 45) (by decide) hc
    rw [hcons]
    exact fun h => hminus (Option.some.inj h)
  rw [hchars, readNumber_apply n.negative position hdigit]
  simp only [hwhole, hfraction, hexponent, hcodes, hback, hlength]

/-- A numeral with nothing but a whole part is read as an integer. -/
theorem readNumber_integer (hn : n.Valid) (hfraction : n.fraction = []) (hexponent : n.exponent = none)
    (hlength : n.whole.length ≤ mostDigits) (hrest : Delimited rest) (position : Nat) :
    ∃ after, readNumber ⟨position, ascii n.chars ++ rest⟩ =
      .ok (.int (signed n.negative (Text.numeral n.whole)), ⟨after, rest⟩) := by
  refine ⟨position + n.chars.length, ?_⟩
  rw [readNumber_ascii hn hrest, if_pos, readInteger, readDigits_of_le hlength]
  · rfl
  · rw [Numeral.fractionPart, Numeral.exponentPart, hfraction, hexponent]
    rfl

/-- A numeral with a fraction or an exponent is read as a double. -/
theorem readNumber_double (hn : n.Valid) (hparts : n.fraction ≠ [] ∨ n.exponent ≠ none)
    (hrest : Delimited rest) (position : Nat) :
    ∃ after, readNumber ⟨position, ascii n.chars ++ rest⟩ =
      .ok (.float (ofDecimal n.negative (Text.numeral (n.whole ++ n.fraction)) n.power),
        ⟨after, rest⟩) := by
  refine ⟨position + n.chars.length, ?_⟩
  rw [readNumber_ascii hn hrest, if_neg, Numeral.readFloat_chars hn, Option.getD_some]
  rw [Numeral.fractionPart, Numeral.exponentPart, Bool.and_eq_true, not_and_or]
  rcases hparts with hfraction | hexponent
  · left
    rw [if_neg (List.isEmpty_iff.not.2 hfraction)]
    exact Bool.false_ne_true
  · right
    cases hsome : n.exponent with
    | none => exact absurd hsome hexponent
    | some exponent => exact Bool.false_ne_true

end Json

end RandomTables
