-- SUMMARY: Surrogates without a partner, for which characters of a private area stand in texts.

/-!
# Unpaired surrogates

JSON text can write a surrogate that has no partner, and such a surrogate is no character. In a text
the character `standInShift` places above stands for it; nobody else assigns these characters, which
lie in the second private area. A text that has to be made of characters alone refuses stand-ins or
replaces them.
-/
namespace RandomTables.Text

/-- The distance from a surrogate to its stand-in. -/
def standInShift : Nat := 0x100000

def isSurrogate (code : Nat) : Bool := 0xd800 ≤ code && code < 0xe000

/-- Whether a character stands for a surrogate. -/
def isStandIn (c : Char) : Bool := isSurrogate (c.toNat - standInShift)

/-- The character of a code point, which for a surrogate is its stand-in. -/
def charOf (code : Nat) : Char :=
  Char.ofNat (if isSurrogate code then code + standInShift else code)

/-- The code point that a character writes. -/
def codeOf (c : Char) : Nat := if isStandIn c then c.toNat - standInShift else c.toNat

theorem toNat_ofNat_of_isValidChar {code : Nat} (h : code.isValidChar) :
    (Char.ofNat code).toNat = code := by
  rw [Char.ofNat, dif_pos h]
  rfl

/-- Below the first stand-in, characters and surrogates keep their code points. -/
theorem codeOf_charOf {code : Nat} (valid : code.isValidChar ∨ isSurrogate code)
    (low : code < standInShift) : codeOf (charOf code) = code := by
  simp only [standInShift] at low
  by_cases h : isSurrogate code
  · have bounds : 0xd800 ≤ code ∧ code < 0xe000 := by simpa [isSurrogate] using h
    have value : (charOf code).toNat = code + standInShift := by
      simp only [charOf, h, if_true, standInShift]
      exact toNat_ofNat_of_isValidChar (Or.inr ⟨by omega, by omega⟩)
    simp [codeOf, isStandIn, value, h]
  · have value : (charOf code).toNat = code := by
      simp only [charOf, h, Bool.false_eq_true, if_false]
      exact toNat_ofNat_of_isValidChar (valid.resolve_right h)
    have zero : code - standInShift = 0 := by simp only [standInShift]; omega
    simp [codeOf, isStandIn, value, zero, isSurrogate]

/-- Whether a text holds no stand-in. -/
def isWhole (text : String) : Bool := !text.toList.any isStandIn

/-- A text in which three replacement characters stand for each surrogate, one for each byte that
its encoding would have. -/
def withoutSurrogates (text : String) : String :=
  String.ofList (text.toList.flatMap fun c =>
    if isStandIn c then List.replicate 3 (Char.ofNat 0xfffd) else [c])

end RandomTables.Text
