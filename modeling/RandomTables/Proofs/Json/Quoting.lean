-- SUMMARY: Texts between quotes are read back as they were written.
import RandomTables.Json.Reader
import RandomTables.Json.Writer

/-!
# Quoted texts

A character stands for itself between quotes or is escaped, and the reader takes either back to its
code point. Stand-ins become the surrogates that they stand for, which are read as stand-ins again.
-/
namespace RandomTables

/-! ## Code points -/

namespace Text

/-- The code points that a text writes. -/
def codes (s : String) : List Nat := s.toList.map codeOf

theorem codes_append (s t : String) : codes (s ++ t) = codes s ++ codes t := by
  simp [codes]

theorem not_isSurrogate_toNat (c : Char) : isSurrogate c.toNat = false := by
  have hvalid : c.toNat.isValidChar := c.valid
  simp only [isSurrogate, Bool.and_eq_false_iff, decide_eq_false_iff_not]
  rcases hvalid with h | h <;> omega

theorem charOf_codeOf (c : Char) : charOf (codeOf c) = c := by
  rw [codeOf]
  split
  · rename_i hstands
    have hlow : standInShift ≤ c.toNat := by
      simp only [isStandIn, isSurrogate, Bool.and_eq_true, decide_eq_true_eq] at hstands
      omega
    have hsurrogate : isSurrogate (c.toNat - standInShift) = true := hstands
    rw [charOf, if_pos hsurrogate, Nat.sub_add_cancel hlow, Char.ofNat_toNat]
  · rw [charOf, if_neg (ne_true_of_eq_false (not_isSurrogate_toNat c)), Char.ofNat_toNat]

end Text

namespace Json

theorem textOf_codes (s : String) : textOf (Text.codes s) = s := by
  have hchars : s.toList.map (Text.charOf ∘ Text.codeOf) = s.toList := by
    simp only [Function.comp_def, Text.charOf_codeOf, List.map_id']
  rw [textOf, Text.codes, List.map_map, hchars, String.ofList_toList]

/-! ## Escapes -/

theorem hexValue_hexDigit : ∀ n < 16, hexValue (Text.hexDigit n).toNat = some n := by decide

/-- Four hexadecimal digits are the number that they were made of. -/
theorem hex4_hexDigits {n : Nat} (h : n < 0x10000) (rest : List Nat) :
    hex4 ((Text.hexDigits 4 n).map Char.toNat ++ rest) = some n := by
  have hdigits : Text.hexDigits 4 n = [Text.hexDigit (n / 16 / 16 / 16 % 16),
    Text.hexDigit (n / 16 / 16 % 16), Text.hexDigit (n / 16 % 16), Text.hexDigit (n % 16)] := rfl
  have hvalue : ∀ m, hexValue (Text.hexDigit (m % 16)).toNat = some (m % 16) := fun m =>
    hexValue_hexDigit _ (Nat.mod_lt m (by decide))
  rw [hdigits]
  simp only [List.map_cons, List.map_nil, List.cons_append, List.nil_append, hex4, hvalue,
    Option.bind_eq_bind, Option.bind_some, Option.pure_def, Option.some.injEq]
  omega

theorem codeOf_hexDigit : ∀ n < 16, Text.codeOf (Text.hexDigit n) = (Text.hexDigit n).toNat := by
  decide

theorem map_codeOf_hexDigits (width n : Nat) :
    (Text.hexDigits width n).map Text.codeOf = (Text.hexDigits width n).map Char.toNat := by
  induction width generalizing n with
  | zero => simp [Text.hexDigits]
  | succ width ih =>
      have hlast := codeOf_hexDigit (n % 16) (Nat.mod_lt n (by decide))
      simp only [Text.hexDigits, List.map_append, List.map_cons, List.map_nil, ih, hlast]

/-- What reading a text comes to that begins with a character. -/
def Continues (start : Nat) (c : Char) (rest : List Nat) (reading : Reading (List Nat × Cursor)) :
    Prop :=
  ∃ position, reading = (do
    let (codes, after) ← readText start rest position 0
    return (Text.codeOf c :: codes, after))

/-- A character that is written as a letter after a backslash. -/
theorem readText_simpleEscape {c letter : Char} {start position : Nat} {rest : List Nat}
    (hwrite : writeChar c = ['\\', letter]) (hletter : Text.codeOf letter ≠ 117)
    (hescape : simpleEscape (Text.codeOf letter) = some (Text.codeOf c)) :
    Continues start c rest
      (readText start ((writeChar c).map Text.codeOf ++ rest) position 0) := by
  have hslash : Text.codeOf '\\' = 92 := by decide
  refine ⟨position + 2, ?_⟩
  simp only [hwrite, List.map_cons, List.map_nil, List.cons_append, List.nil_append, hslash,
    readText, hletter, hescape]
  rfl

theorem codeOf_of_small {c : Char} (h : c.toNat < 32) : Text.codeOf c = c.toNat := by
  have hzero : c.toNat - Text.standInShift = 0 := by
    rw [Text.standInShift]
    omega
  rw [Text.codeOf, if_neg]
  rw [Text.isStandIn, hzero]
  decide

/-- An escape of four digits that is no half of a surrogate pair. -/
theorem unicodeEscape_hexDigits {n : Nat} (h : n < 0xd800) (position : Nat) {rest : List Nat}
    (hrest : rest ≠ []) :
    unicodeEscape ⟨position, 117 :: ((Text.hexDigits 4 n).map Char.toNat ++ rest)⟩ =
      .ok (n, 5) := by
  have hlength : ((Text.hexDigits 4 n).map Char.toNat).length = 4 := rfl
  have hafter : ((Text.hexDigits 4 n).map Char.toNat ++ rest).drop 4 = rest :=
    List.drop_left' hlength
  have hlow : isHighSurrogate n = false := by
    rw [isHighSurrogate, Bool.and_eq_false_iff]
    exact .inl (decide_eq_false (Nat.not_le.2 h))
  obtain ⟨next, more, rfl⟩ := List.exists_cons_of_ne_nil hrest
  simp only [unicodeEscape, List.drop_succ_cons, List.drop_zero,
    hex4_hexDigits (Nat.lt_trans h (by decide)), hafter, hlow, Bool.false_and, Bool.false_eq_true,
    if_false]

/-- A character that is written by its number. -/
theorem readText_unicodeEscape {c : Char} {start position : Nat} {rest : List Nat}
    (hrest : rest ≠ []) (hsmall : c.toNat < 32)
    (hwrite : writeChar c = ['\\', 'u'] ++ Text.hexDigits 4 c.toNat) :
    Continues start c rest
      (readText start ((writeChar c).map Text.codeOf ++ rest) position 0) := by
  have hslash : Text.codeOf '\\' = 92 := by decide
  have hletter : Text.codeOf 'u' = 117 := by decide
  have hread := unicodeEscape_hexDigits (Nat.lt_trans hsmall (by decide)) (position + 1) hrest
  refine ⟨position + 6, ?_⟩
  simp only [hwrite, List.map_cons, List.cons_append, List.nil_append, map_codeOf_hexDigits,
    hslash, hletter, codeOf_of_small hsmall]
  rw [readText]
  simp only [hread]
  rfl

/-- A character that stands for itself. -/
theorem readText_plain {c : Char} {start position : Nat} {rest : List Nat}
    (hwrite : writeChar c = [c]) (hlarge : 32 ≤ c.toNat) (hquote : c ≠ '"') (hslash : c ≠ '\\') :
    Continues start c rest
      (readText start ((writeChar c).map Text.codeOf ++ rest) position 0) := by
  have hcode : Text.codeOf c ≠ 34 ∧ Text.codeOf c ≠ 92 ∧ ¬ Text.codeOf c ≤ 31 := by
    rw [Text.codeOf]
    split
    · rename_i hstands
      simp only [Text.isStandIn, Text.isSurrogate, Bool.and_eq_true, decide_eq_true_eq] at hstands
      omega
    · refine ⟨fun h => hquote ?_, fun h => hslash ?_, by omega⟩
      · exact Char.toNat_inj.1 h
      · exact Char.toNat_inj.1 h
  refine ⟨position + 1, ?_⟩
  simp only [hwrite, List.map_cons, List.map_nil, List.cons_append, List.nil_append, readText,
    if_neg hcode.1, if_neg hcode.2.1, if_neg hcode.2.2]

/-- The code points of a character between quotes are read as the code point of the character. -/
theorem readText_writeChar (c : Char) (start position : Nat) {rest : List Nat} (hrest : rest ≠ []) :
    Continues start c rest
      (readText start ((writeChar c).map Text.codeOf ++ rest) position 0) := by
  by_cases hquote : c = '"'
  · subst hquote
    exact readText_simpleEscape rfl (by decide) (by decide)
  by_cases hslash : c = '\\'
  · subst hslash
    exact readText_simpleEscape rfl (by decide) (by decide)
  by_cases hnewline : c = '\n'
  · subst hnewline
    exact readText_simpleEscape rfl (by decide) (by decide)
  by_cases hreturn : c = '\r'
  · subst hreturn
    exact readText_simpleEscape rfl (by decide) (by decide)
  by_cases htab : c = '\t'
  · subst htab
    exact readText_simpleEscape rfl (by decide) (by decide)
  by_cases hback : c = Char.ofNat 8
  · subst hback
    have hwritten : writeChar (Char.ofNat 8) = ['\\', 'b'] := rfl
    exact readText_simpleEscape hwritten (by decide) (by decide)
  by_cases hfeed : c = Char.ofNat 12
  · subst hfeed
    have hwritten : writeChar (Char.ofNat 12) = ['\\', 'f'] := rfl
    exact readText_simpleEscape hwritten (by decide) (by decide)
  have hnumber : ∀ n < 32, c.toNat = n → c = Char.ofNat n := fun n _ h => by
    rw [← h, Char.ofNat_toNat]
  have hnotback : c.toNat ≠ 8 := fun h => hback (hnumber 8 (by decide) h)
  have hnotfeed : c.toNat ≠ 12 := fun h => hfeed (hnumber 12 (by decide) h)
  by_cases hsmall : c.toNat < 32
  · refine readText_unicodeEscape hrest hsmall ?_
    simp [writeChar, hquote, hslash, hnewline, hreturn, htab, hnotback, hnotfeed, hsmall]
  · refine readText_plain ?_ (Nat.not_lt.1 hsmall) hquote hslash
    simp [writeChar, hquote, hslash, hnewline, hreturn, htab, hnotback, hnotfeed, hsmall]

/-- Written characters up to the closing quote are read as they are. -/
theorem readText_writeChars (cs : List Char) (start position : Nat) (rest : List Nat) :
    ∃ after, readText start ((cs.flatMap writeChar).map Text.codeOf ++ 34 :: rest) position 0 =
      .ok (cs.map Text.codeOf, ⟨after, rest⟩) := by
  induction cs generalizing position with
  | nil => exact ⟨position + 1, rfl⟩
  | cons c cs ih =>
      have hmore : (cs.flatMap writeChar).map Text.codeOf ++ 34 :: rest ≠ [] := by simp
      obtain ⟨next, hnext⟩ := readText_writeChar c start position hmore
      obtain ⟨after, hafter⟩ := ih next
      refine ⟨after, ?_⟩
      rw [List.flatMap_cons, List.map_append, List.append_assoc, hnext, hafter]
      rfl

/-- The code points of a written text, without the opening quote. -/
theorem codes_writeText (s : String) :
    Text.codes (writeText s) = 34 :: ((s.toList.flatMap writeChar).map Text.codeOf ++ [34]) := by
  have hquote : Text.codeOf '"' = 34 := by decide
  simp only [Text.codes, writeText, String.toList_ofList, List.cons_append, List.map_cons,
    List.map_append, List.map_nil, hquote]

/-- A written text is read as it is. -/
theorem readText_writeText (s : String) (start position : Nat) (rest : List Nat) :
    ∃ after, readText start ((Text.codes (writeText s) ++ rest).drop 1) position 0 =
      .ok (Text.codes s, ⟨after, rest⟩) := by
  obtain ⟨after, hafter⟩ := readText_writeChars s.toList start position rest
  refine ⟨after, ?_⟩
  rw [codes_writeText, List.cons_append, List.drop_one, List.tail_cons, List.append_assoc,
    List.singleton_append, hafter, Text.codes]

end Json

end RandomTables
