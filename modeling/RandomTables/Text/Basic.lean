-- SUMMARY: Texts as lists of characters: blanks, trimming, cutting, replacing and splitting.
import RandomTables.Text.Range

/-!
# Texts

Texts are taken apart as lists of characters, so that every function on them is a recursion on the
data. Positions count characters.
-/
namespace RandomTables.Text

/-! ## Blanks

The characters that are stripped from the ends of a text and skipped between tokens: the ASCII
spaces and separators, next line, and the spaces of Unicode 14. -/

/-- The blank code points. -/
def blanks : List CodeRange :=
  [(0x0009, 0x000d), (0x001c, 0x0020), (0x0085, 0x0085), (0x00a0, 0x00a0), (0x1680, 0x1680),
   (0x2000, 0x200a), (0x2028, 0x2029), (0x202f, 0x202f), (0x205f, 0x205f), (0x3000, 0x3000)]

/-- Whether a character is blank. -/
def isBlank (c : Char) : Bool := inRanges blanks c.toNat

/-- Whether a character is one of the four ASCII separators of files, groups, records and units. -/
def isAsciiSeparator (c : Char) : Bool := 0x1c ≤ c.toNat && c.toNat ≤ 0x1f

/-! ## Trimming and cutting -/

/-- A text without the blanks at its start. -/
def trimStart (cs : List Char) : List Char := cs.dropWhile isBlank

/-- A text without the blanks at its end. -/
def trimEnd (cs : List Char) : List Char := (cs.reverse.dropWhile isBlank).reverse

/-- A text without the blanks at its ends. -/
def trim (cs : List Char) : List Char := trimEnd (trimStart cs)

theorem length_trimStart_le (cs : List Char) : (trimStart cs).length ≤ cs.length :=
  (List.dropWhile_sublist _).length_le

theorem length_trimEnd_le (cs : List Char) : (trimEnd cs).length ≤ cs.length := by
  simpa [trimEnd] using (List.dropWhile_sublist (l := cs.reverse) isBlank).length_le

theorem length_trim_le (cs : List Char) : (trim cs).length ≤ cs.length :=
  Nat.le_trans (length_trimEnd_le _) (length_trimStart_le _)

/-- The text cut at the first occurrence of a mark: what stands before it and what stands after. -/
def cutAt (mark cs : List Char) : Option (List Char × List Char) :=
  match mark.isPrefixOf? cs with
  | some after => some ([], after)
  | none =>
    match cs with
    | [] => none
    | c :: rest => (cutAt mark rest).map fun (before, after) => (c :: before, after)

theorem append_of_isPrefixOf? {mark cs rest : List Char} (h : mark.isPrefixOf? cs = some rest) :
    mark ++ rest = cs := by
  induction mark generalizing cs with
  | nil => exact (Option.some.inj h).symm
  | cons m ms ih =>
    cases cs with
    | nil => exact nomatch h
    | cons c cs =>
      change (if m == c then ms.isPrefixOf? cs else none) = some rest at h
      split at h
      · rename_i hmc
        rw [List.cons_append, ih h, eq_of_beq hmc]
      · simp at h

theorem append_of_cutAt {mark cs before after : List Char}
    (h : cutAt mark cs = some (before, after)) :
    before ++ mark ++ after = cs := by
  induction cs generalizing before with
  | nil =>
    rw [cutAt] at h
    split at h
    · rename_i rest hr
      simp only [Option.some.injEq, Prod.mk.injEq] at h
      obtain ⟨rfl, rfl⟩ := h
      simpa using append_of_isPrefixOf? hr
    · simp at h
  | cons c cs ih =>
    rw [cutAt] at h
    split at h
    · rename_i rest hr
      simp only [Option.some.injEq, Prod.mk.injEq] at h
      obtain ⟨rfl, rfl⟩ := h
      simpa using append_of_isPrefixOf? hr
    · simp only [Option.map_eq_some_iff, Prod.mk.injEq, Prod.exists] at h
      obtain ⟨b, a, hb, rfl, rfl⟩ := h
      simpa using ih hb

/-- Whether a text holds another one. -/
def holds (mark cs : List Char) : Bool := (cutAt mark cs).isSome

/-- The text with every pair of the two characters, taken from the left, replaced by one. -/
def replacePair (a b new : Char) : List Char → List Char
  | x :: y :: rest =>
    if x == a && y == b then new :: replacePair a b new rest
    else x :: replacePair a b new (y :: rest)
  | cs => cs

/-- The pieces of a text between the occurrences of a character. -/
def splitAtChar (mark : Char) : List Char → List (List Char)
  | [] => [[]]
  | c :: rest =>
    if c == mark then [] :: splitAtChar mark rest
    else match splitAtChar mark rest with
      | [] => [[c]]
      | piece :: pieces => (c :: piece) :: pieces

/-- A text cut at the first occurrence of a character, which belongs to neither part. -/
def cutAtChar (mark : Char) (cs : List Char) : List Char × List Char :=
  (cs.takeWhile (· != mark), (cs.dropWhile (· != mark)).drop 1)

/-- The part of a text from one position up to another. -/
def slice (cs : List Char) (start stop : Nat) : List Char := (cs.drop start).take (stop - start)

/-- A text padded with a character on the left to a width. -/
def padLeft (width : Nat) (fill : Char) (cs : List Char) : List Char :=
  List.replicate (width - cs.length) fill ++ cs

end RandomTables.Text
