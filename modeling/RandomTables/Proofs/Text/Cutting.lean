-- SUMMARY: Texts are cut at the marks that they have and not at others, and trimmed of blanks only.
import Mathlib.Data.List.Basic
import Mathlib.Data.List.DropRight
import RandomTables.Text.Letter
import RandomTables.Text.Split

/-!
# Cutting texts

A text that lacks a mark is not cut there, and one that is put together with a mark is cut where it
was put. Names are made of word characters, none of which is blank.
-/
namespace RandomTables.Text

/-! ## Characters that occur in no name -/

/-- Signs of directives and expressions that are no word characters. -/
def marks : List Char :=
  [' ', '"', '\'', '(', ')', '[', ']', '|', '.', ',', '@', '$', '>', '-', '+']

theorem isWord_of_mem_marks {c : Char} (h : c ∈ marks) : isWord c = false := by
  have hnone : marks.any isWord = false := by decide +kernel
  exact Bool.eq_false_iff.2 (List.any_eq_false.1 hnone c h)

theorem isDigit_of_not_isWord {c : Char} (h : isWord c = false) : isDigit c = false := by
  simp only [isWord, isAlnum, isNumeric, Bool.or_eq_false_iff] at h
  exact h.1.2.1

theorem isLetter_of_not_isWord {c : Char} (h : isWord c = false) : isLetter c = false := by
  simp only [isWord, isAlnum, Bool.or_eq_false_iff] at h
  exact h.1.1

theorem isDigit_of_mem_marks {c : Char} (h : c ∈ marks) : isDigit c = false :=
  isDigit_of_not_isWord (isWord_of_mem_marks h)

theorem isLetter_of_mem_marks {c : Char} (h : c ∈ marks) : isLetter c = false :=
  isLetter_of_not_isWord (isWord_of_mem_marks h)

theorem isWord_of_isDecimal {c : Char} (h : isDecimal c = true) : isWord c = true := by
  simp [isWord, isAlnum, isNumeric, isDigit, h]

/-! ## Tables of characters -/

/-- Whether two tables share no code point. Both are ascending, so that what lies below a range of
the one is passed over for good. -/
def apart : List CodeRange → List CodeRange → Bool
  | _, [] => true
  | table, (low, high) :: rest =>
    match table.dropWhile (·.2 < low) with
    | [] => true
    | r :: table => high < r.1 && apart (r :: table) rest

theorem inRanges_of_dropWhile {table : List CodeRange} {low code : Nat} (hlow : low ≤ code)
    (h : inRanges (table.dropWhile (·.2 < low)) code = false) : inRanges table code = false := by
  induction table with
  | nil => rfl
  | cons r rest ih =>
      rw [List.dropWhile_cons] at h
      split at h
      · rename_i hbelow
        have hbelow : r.2 < low := of_decide_eq_true hbelow
        rw [inRanges, if_neg (Nat.not_le.2 (Nat.lt_of_lt_of_le hbelow hlow)), ih h, ite_self]
      · exact h

theorem inRanges_of_apart {table table' : List CodeRange} (h : apart table table' = true)
    {code : Nat} (hcode : inRanges table' code = true) : inRanges table code = false := by
  induction table' generalizing table with
  | nil => cases hcode
  | cons r rest ih =>
      obtain ⟨low, high⟩ := r
      rw [inRanges] at hcode
      split at hcode
      · cases hcode
      · rename_i hlow
        apply inRanges_of_dropWhile (Nat.not_lt.1 hlow)
        rw [apart] at h
        split at h
        · rename_i hnil
          rw [hnil]
          rfl
        · rename_i r table hrest
          rw [Bool.and_eq_true, decide_eq_true_eq] at h
          rw [hrest]
          split at hcode
          · rw [inRanges, if_pos (by omega)]
          · exact ih h.2 hcode

/-! ## Blanks -/

/-- No word character is blank. -/
theorem isBlank_of_isWord {c : Char} (h : isWord c = true) : isBlank c = false := by
  simp only [isWord, isAlnum, isNumeric, isDigit, isDecimal, isLetter, Bool.or_eq_true,
    beq_iff_eq] at h
  rcases h with (h | (h | h) | h) | rfl
  · exact inRanges_of_apart (by decide +kernel) h
  · exact inRanges_of_apart (by decide +kernel) h
  · exact inRanges_of_apart (by decide +kernel) h
  · exact inRanges_of_apart (by decide +kernel) h
  · decide

/-- No character that a reference begins with is blank. -/
theorem isBlank_of_isAsciiWord {c : Char} (h : isAsciiWord c = true) : isBlank c = false := by
  have hword : 48 ≤ c.toNat ∧ c.toNat ≤ 122 := by
    have hbetween : ∀ low high : Char, c.val ≥ low.val ∧ c.val ≤ high.val →
        low.toNat ≤ c.toNat ∧ c.toNat ≤ high.toNat := fun _ _ h => h
    have hsorts : (((c.isUpper || c.isLower) || c.isDigit) || c == '_') = true := h
    rw [Bool.or_eq_true, Bool.or_eq_true, Bool.or_eq_true, beq_iff_eq] at hsorts
    rcases hsorts with ((hupper | hlower) | hdigit) | rfl
    · have hletter := hbetween 'A' 'Z' (of_decide_eq_true hupper)
      exact ⟨hletter.1.trans' (by decide), hletter.2.trans (by decide)⟩
    · obtain ⟨hlow, hhigh⟩ := Bool.and_eq_true_iff.1 hlower
      have hletter := hbetween 'a' 'z' ⟨of_decide_eq_true hlow, of_decide_eq_true hhigh⟩
      exact ⟨hletter.1.trans' (by decide), hletter.2.trans (by decide)⟩
    · obtain ⟨hlow, hhigh⟩ := Bool.and_eq_true_iff.1 hdigit
      have hnumber := hbetween '0' '9' ⟨of_decide_eq_true hlow, of_decide_eq_true hhigh⟩
      exact ⟨hnumber.1.trans' (by decide), hnumber.2.trans (by decide)⟩
    · decide
  have hapart : ∀ r ∈ blanks, r.2 < 48 ∨ 122 < r.1 := by decide
  rw [Bool.eq_false_iff]
  intro hblank
  obtain ⟨r, hr, hlow, hhigh⟩ := mem_of_inRanges hblank
  have := hapart r hr
  omega

/-- A text that has no blanks at its ends is trimmed. -/
theorem trim_of_ends {cs : List Char} (hfirst : cs.head?.any isBlank = false)
    (hlast : cs.getLast?.any isBlank = false) : trim cs = cs := by
  have hstart : trimStart cs = cs := by
    cases cs with
    | nil => rfl
    | cons c rest => exact List.dropWhile_cons_of_neg (Bool.eq_false_iff.1 hfirst)
  rw [trim, hstart]
  refine List.rdropWhile_eq_self_iff.2 fun hne => Bool.eq_false_iff.1 ?_
  rwa [List.getLast?_eq_some_getLast hne] at hlast

theorem isBlank_of_trim_eq_nil {cs : List Char} (h : trim cs = []) :
    ∀ c ∈ cs, isBlank c = true := by
  have hstart : trimStart cs = [] := by
    have hall := List.rdropWhile_eq_nil_iff.1 h
    by_contra hne
    have hhead := List.dropWhile_get_zero_not isBlank cs (List.length_pos_iff.2 hne)
    exact hhead (hall _ (List.getElem_mem _))
  exact List.dropWhile_eq_nil_iff.1 hstart

/-! ## Marks -/

section

variable {mark : Char}

theorem splitAtChar_of_absent {cs : List Char} (h : cs.contains mark = false) :
    splitAtChar mark cs = [cs] := by
  induction cs with
  | nil => rfl
  | cons c rest ih =>
      rw [List.contains_cons, Bool.or_eq_false_iff] at h
      have hother : (c == mark) = false := BEq.comm.trans h.1
      rw [splitAtChar, hother, ih h.2]
      rfl

theorem exists_splitAtChar (mark : Char) (cs : List Char) :
    ∃ piece pieces, splitAtChar mark cs = piece :: pieces := by
  cases cs with
  | nil => exact ⟨[], [], rfl⟩
  | cons c rest =>
      rw [splitAtChar]
      split
      · exact ⟨_, _, rfl⟩
      · split
        · exact ⟨_, _, rfl⟩
        · exact ⟨_, _, rfl⟩

theorem splitAtChar_append {cs : List Char} (h : cs.contains mark = false) (rest : List Char) :
    splitAtChar mark (cs ++ mark :: rest) = cs :: splitAtChar mark rest := by
  induction cs with
  | nil => rw [List.nil_append, splitAtChar, if_pos (beq_self_eq_true mark)]
  | cons c cs ih =>
      rw [List.contains_cons, Bool.or_eq_false_iff] at h
      have hother : (c == mark) = false := BEq.comm.trans h.1
      rw [List.cons_append, splitAtChar, hother, ih h.2]
      rfl

/-- The pieces of a text with the mark between them are the text. -/
theorem intercalate_splitAtChar (mark : Char) (cs : List Char) :
    [mark].intercalate (splitAtChar mark cs) = cs := by
  induction cs with
  | nil => rfl
  | cons c rest ih =>
      obtain ⟨piece, pieces, hsplit⟩ := exists_splitAtChar mark rest
      rw [hsplit] at ih
      rw [splitAtChar, hsplit]
      split
      · rename_i hmark
        rw [List.intercalate_cons_cons, ih, eq_of_beq hmark]
        rfl
      · cases pieces with
        | nil =>
            rw [List.intercalate_singleton] at ih ⊢
            rw [ih]
        | cons next pieces =>
            rw [List.intercalate_cons_cons] at ih ⊢
            rw [← ih]
            rfl

/-- A text without the mark is cut where the mark is put behind it. -/
theorem cutAtChar_append {cs : List Char} (h : mark ∉ cs) (rest : List Char) :
    cutAtChar mark (cs ++ mark :: rest) = (cs, rest) := by
  have hmark : ∀ c ∈ cs, (c != mark) = true := fun c hc => by
    simpa using fun heq : c = mark => h (heq ▸ hc)
  have htake : (cs ++ mark :: rest).takeWhile (· != mark) = cs := by
    rw [List.takeWhile_append_of_pos hmark]
    simp
  have hdrop : (cs ++ mark :: rest).dropWhile (· != mark) = mark :: rest := by
    rw [List.dropWhile_append_of_pos hmark]
    simp
  rw [cutAtChar, htake, hdrop]
  rfl

end

/-- A mark that a text lacks a character of does not occur in it. -/
theorem cutAt_eq_none {mark cs : List Char} {c : Char} (hmark : c ∈ mark) (hc : c ∉ cs) :
    cutAt mark cs = none := by
  rw [← Option.not_isSome_iff_eq_none, Option.isSome_iff_exists]
  rintro ⟨⟨before, after⟩, hcut⟩
  refine hc ?_
  rw [← append_of_cutAt hcut]
  simp [hmark]

theorem isSome_isPrefixOf? (mark cs : List Char) :
    (mark.isPrefixOf? cs).isSome = mark.isPrefixOf cs := by
  induction mark generalizing cs with
  | nil => rfl
  | cons m mark ih =>
      cases cs with
      | nil => rfl
      | cons c cs =>
          rw [List.isPrefixOf?, List.isPrefixOf_cons_cons]
          cases m == c
          · rfl
          · exact ih cs

theorem isPrefixOf?_eq_none_iff {mark cs : List Char} :
    mark.isPrefixOf? cs = none ↔ ¬ mark <+: cs := by
  rw [← Option.not_isSome_iff_eq_none, isSome_isPrefixOf?, List.isPrefixOf_iff_prefix]

/-- A text is cut at the first place where the mark stands. -/
theorem first_of_cutAt {mark cs before after : List Char}
    (h : cutAt mark cs = some (before, after)) {i : Nat} (hi : i < before.length) :
    ¬ mark <+: cs.drop i := by
  induction cs generalizing before i with
  | nil =>
      rw [cutAt] at h
      split at h <;> cases h
      cases hi
  | cons c cs ih =>
      rw [cutAt] at h
      split at h
      · cases h
        cases hi
      · rename_i hnone
        obtain ⟨⟨before, after⟩, hcut, heq⟩ := Option.map_eq_some_iff.1 h
        cases heq
        cases i with
        | zero => exact isPrefixOf?_eq_none_iff.1 hnone
        | succ i => exact ih hcut (Nat.lt_of_succ_lt_succ hi)

/-- A text is not cut if the mark stands nowhere in it. -/
theorem absent_of_cutAt {mark cs : List Char} (h : cutAt mark cs = none) (i : Nat) :
    ¬ mark <+: cs.drop i := by
  induction cs generalizing i with
  | nil =>
      rw [cutAt] at h
      split at h
      · cases h
      · rename_i hnone
        rw [List.drop_nil]
        exact isPrefixOf?_eq_none_iff.1 hnone
  | cons c cs ih =>
      rw [cutAt] at h
      split at h
      · cases h
      · rename_i hnone
        cases i with
        | zero => exact isPrefixOf?_eq_none_iff.1 hnone
        | succ i => exact ih (Option.map_eq_none_iff.1 h) i

/-! ## Parts of texts -/

theorem trimStart_within (cs : List Char) : trimStart cs <:+: cs := (List.dropWhile_suffix _).isInfix

theorem trim_within (cs : List Char) : trim cs <:+: cs := by
  have hend : trimEnd (trimStart cs) <+: trimStart cs := List.rdropWhile_prefix _ _
  exact hend.isInfix.trans (trimStart_within cs)

theorem cutAtChar_within (mark : Char) (cs : List Char) :
    (cutAtChar mark cs).1 <:+: cs ∧ (cutAtChar mark cs).2 <:+: cs :=
  ⟨(List.takeWhile_prefix _).isInfix,
    ((List.drop_suffix _ _).trans (List.dropWhile_suffix _)).isInfix⟩

theorem cutAt_within {mark cs before after : List Char} (h : cutAt mark cs = some (before, after)) :
    before <:+: cs ∧ after <:+: cs := by
  rw [← append_of_cutAt h]
  exact ⟨⟨[], mark ++ after, by simp⟩, ⟨before ++ mark, [], by simp⟩⟩

/-- The first part begins the text, and the others are found in it. -/
def Parts (cs : List Char) (parts : List (List Char)) : Prop :=
  ∃ first more, parts = first :: more ∧ first <+: cs ∧ ∀ part ∈ more, part <:+: cs

namespace Parts

variable {cs : List Char} {parts : List (List Char)}

theorem whole (cs : List Char) : Parts cs [cs] :=
  ⟨cs, [], rfl, List.prefix_refl cs, fun _ h => nomatch h⟩

theorem infix_of_mem (h : Parts cs parts) : ∀ part ∈ parts, part <:+: cs := by
  obtain ⟨first, more, rfl, hfirst, hmore⟩ := h
  exact List.forall_mem_cons.2 ⟨hfirst.isInfix, hmore⟩

theorem consFirst (h : Parts cs parts) (c : Char) : Parts (c :: cs) (consFirst c parts) := by
  obtain ⟨first, more, rfl, hfirst, hmore⟩ := h
  exact ⟨c :: first, more, rfl, List.cons_prefix_cons.2 ⟨rfl, hfirst⟩,
    fun part hpart => (hmore part hpart).trans (List.suffix_cons c cs).isInfix⟩

theorem behind (h : Parts cs parts) (c : Char) : Parts (c :: cs) ([] :: parts) :=
  ⟨[], parts, rfl, List.nil_prefix,
    fun part hpart => (h.infix_of_mem part hpart).trans (List.suffix_cons c cs).isInfix⟩

end Parts

theorem parts_splitAtChar (mark : Char) (cs : List Char) : Parts cs (splitAtChar mark cs) := by
  induction cs with
  | nil => exact .whole []
  | cons c rest ih =>
      rw [splitAtChar]
      split
      · exact ih.behind c
      · obtain ⟨piece, pieces, hsplit⟩ := exists_splitAtChar mark rest
        rw [hsplit] at ih ⊢
        exact ih.consFirst c

theorem parts_splitFrom (separator : Char) (budget : Option Nat) (previous : Option Char)
    (depth : Int) (quote : Option Char) (cs : List Char) :
    Parts cs (splitFrom separator budget previous depth quote cs) := by
  fun_induction splitFrom separator budget previous depth quote cs with
  | case1 => exact .whole []
  | case2 => exact .whole _
  | case3 => rename_i ih; exact (ih.consFirst _).consFirst _
  | case8 => rename_i ih; exact ih.behind _
  | _ => rename_i ih; exact ih.consFirst _

/-! ## Texts that are put together -/

/-- A mark occurs at the start of a text or behind its first character. -/
theorem holds_cons (mark : List Char) (c : Char) (cs : List Char) :
    holds mark (c :: cs) = (mark.isPrefixOf (c :: cs) || holds mark cs) := by
  rw [holds, cutAt, ← isSome_isPrefixOf?]
  cases mark.isPrefixOf? (c :: cs) with
  | some after => rfl
  | none =>
      dsimp only
      rw [Option.isSome_map]
      rfl

section

variable {mark cs rest : List Char}

/-- What follows a text does not complete a mark if its first character is none of the mark. -/
theorem isPrefixOf_append (h : ∀ c ∈ rest.head?, c ∉ mark) :
    mark.isPrefixOf (cs ++ rest) = mark.isPrefixOf cs := by
  induction mark generalizing cs with
  | nil => rfl
  | cons m mark ih =>
      cases cs with
      | nil =>
          cases rest with
          | nil => rfl
          | cons c rest =>
              have hc : (m == c) = false :=
                beq_false_of_ne fun heq => h c rfl (heq ▸ List.mem_cons_self)
              rw [List.nil_append, List.isPrefixOf_cons_cons, hc]
              rfl
      | cons c cs =>
          rw [List.cons_append, List.isPrefixOf_cons_cons, List.isPrefixOf_cons_cons,
            ih fun d hd => mt (List.mem_cons_of_mem m) (h d hd)]

theorem holds_nil (hne : mark ≠ []) : holds mark [] = false := by
  cases mark with
  | nil => exact absurd rfl hne
  | cons m mark => rfl

/-- A character that is none of a mark keeps what stands before it and behind it apart. -/
theorem holds_append_cons (hne : mark ≠ []) {c : Char} (hc : c ∉ mark) :
    holds mark (cs ++ c :: rest) = (holds mark cs || holds mark rest) := by
  induction cs with
  | nil =>
      have hstart : mark.isPrefixOf (c :: rest) = false := by
        cases mark with
        | nil => exact absurd rfl hne
        | cons m mark =>
            have hm : (m == c) = false := beq_false_of_ne fun heq => hc (heq ▸ List.mem_cons_self)
            rw [List.isPrefixOf_cons_cons, hm]
            rfl
      rw [List.nil_append, holds_cons, hstart, holds_nil hne]
  | cons d cs ih =>
      have hstart : mark.isPrefixOf (d :: (cs ++ c :: rest)) = mark.isPrefixOf (d :: cs) := by
        rw [← List.cons_append]
        exact isPrefixOf_append fun e he => Option.some.inj he ▸ hc
      rw [List.cons_append, holds_cons, hstart, ih, holds_cons, Bool.or_assoc]

theorem holds_append (hne : mark ≠ []) (h : ∀ c ∈ rest, c ∉ mark) :
    holds mark (cs ++ rest) = holds mark cs := by
  induction rest generalizing cs with
  | nil => rw [List.append_nil]
  | cons c rest ih =>
      rw [List.forall_mem_cons] at h
      have hempty : holds mark ([] ++ rest) = holds mark [] := ih h.2
      have hrest : holds mark rest = false := hempty.trans (holds_nil hne)
      rw [holds_append_cons hne h.1, hrest, Bool.or_false]

theorem holds_prepend (hne : mark ≠ []) (h : ∀ c ∈ cs, c ∉ mark) :
    holds mark (cs ++ rest) = holds mark rest := by
  induction cs with
  | nil => rfl
  | cons c cs ih =>
      rw [List.forall_mem_cons] at h
      have hstart : holds mark ([] ++ c :: (cs ++ rest)) =
          (holds mark [] || holds mark (cs ++ rest)) := holds_append_cons hne h.1
      rw [List.nil_append, holds_nil hne, Bool.false_or] at hstart
      rw [List.cons_append, hstart, ih h.2]

theorem isPrefixOf?_append {after : List Char} (h : mark.isPrefixOf? cs = some after) :
    mark.isPrefixOf? (cs ++ rest) = some (after ++ rest) := by
  induction mark generalizing cs with
  | nil =>
      obtain rfl := Option.some.inj h
      rfl
  | cons m mark ih =>
      cases cs with
      | nil => cases h
      | cons c cs =>
          rw [List.isPrefixOf?] at h
          rw [List.cons_append, List.isPrefixOf?]
          split at h
          · rename_i hm
            rw [if_pos hm]
            exact ih h
          · cases h

/-- A text is cut where it was if what follows it completes no mark. -/
theorem cutAt_append {before after : List Char} (rest : List Char)
    (hrest : ∀ c ∈ rest.head?, c ∉ mark) (h : cutAt mark cs = some (before, after)) :
    cutAt mark (cs ++ rest) = some (before, after ++ rest) := by
  induction cs generalizing before with
  | nil =>
      rw [cutAt] at h
      split at h
      · rename_i hprefix
        cases h
        rw [cutAt.eq_def, isPrefixOf?_append hprefix]
      · cases h
  | cons c cs ih =>
      rw [cutAt] at h
      split at h
      · rename_i hprefix
        cases h
        rw [cutAt.eq_def, isPrefixOf?_append hprefix]
      · rename_i hprefix
        obtain ⟨⟨before, after⟩, hcut, heq⟩ := Option.map_eq_some_iff.1 h
        cases heq
        have hnone : mark.isPrefixOf? (c :: cs ++ rest) = none := by
          rw [← Option.not_isSome_iff_eq_none, isSome_isPrefixOf?, isPrefixOf_append hrest,
            ← isSome_isPrefixOf?, hprefix]
          exact Bool.false_ne_true
        rw [cutAt.eq_def, hnone, List.cons_append]
        dsimp only
        rw [ih hcut]
        rfl

/-- The mark at which a text is cut is the first one. -/
theorem holds_of_cutAt {before after : List Char} (hne : mark ≠ [])
    (h : cutAt mark cs = some (before, after)) : holds mark before = false := by
  induction cs generalizing before with
  | nil =>
      rw [cutAt] at h
      split at h
      · cases h
        exact holds_nil hne
      · cases h
  | cons c cs ih =>
      rw [cutAt] at h
      split at h
      · cases h
        exact holds_nil hne
      · rename_i hprefix
        obtain ⟨⟨before, after⟩, hcut, heq⟩ := Option.map_eq_some_iff.1 h
        cases heq
        rw [holds_cons, ih hcut, Bool.or_false, Bool.eq_false_iff]
        intro hstart
        have hwhole : mark.isPrefixOf (c :: cs) = true := by
          rw [List.isPrefixOf_iff_prefix] at hstart ⊢
          rw [← append_of_cutAt hcut, List.append_assoc]
          exact hstart.trans (List.prefix_append (c :: before) _)
        rw [← isSome_isPrefixOf?, hprefix] at hwhole
        cases hwhole

/-- A mark whose last character occurs in it once does not begin in front of itself. -/
theorem prefix_of_prefix_append {start before : List Char} {c : Char} (hc : c ∉ start)
    (hne : before ≠ []) (h : start ++ [c] <+: before ++ (start ++ [c] ++ rest)) :
    start ++ [c] <+: before := by
  rcases List.prefix_or_prefix_of_prefix h (List.prefix_append before _) with h' | ⟨tail, htail⟩
  · exact h'
  -- what the mark has behind `before` begins the mark again and is shorter than it
  rw [← htail, List.prefix_append_right_inj] at h
  have hlength := List.length_pos_iff.2 hne
  have hsame := congrArg List.length htail
  simp only [List.length_append, List.length_singleton] at hsame
  rcases List.eq_nil_or_concat' tail with rfl | ⟨tail, d, rfl⟩
  · exact ⟨[], by simpa using htail.symm⟩
  · obtain ⟨rfl, hd⟩ : before ++ tail = start ∧ [d] = [c] :=
      List.append_inj' (by simpa using htail) rfl
    obtain rfl := List.singleton_inj.1 hd
    have hstart : tail ++ [d] <+: before ++ tail := by
      refine List.prefix_of_prefix_length_le h ?_ ?_
      · simp only [List.append_assoc]
        exact List.prefix_append_right_inj _ |>.2 (List.prefix_append _ _)
      · simp only [List.length_append, List.length_singleton] at hsame ⊢
        omega
    exact absurd (hstart.subset (by simp)) hc

/-- A text that is put together with a mark is cut at it if the mark does not occur before. -/
theorem cutAt_prepend {start before : List Char} {c : Char} (hc : c ∉ start)
    (h : holds (start ++ [c]) before = false) (rest : List Char) :
    cutAt (start ++ [c]) (before ++ (start ++ [c] ++ rest)) = some (before, rest) := by
  have hself : (start ++ [c]).isPrefixOf? (start ++ [c] ++ rest) = some rest := by
    have hprefix : ((start ++ [c]).isPrefixOf? (start ++ [c] ++ rest)).isSome = true := by
      rw [isSome_isPrefixOf?, List.isPrefixOf_iff_prefix]
      exact List.prefix_append _ _
    obtain ⟨after, hafter⟩ := Option.isSome_iff_exists.1 hprefix
    rw [hafter, List.append_cancel_left (append_of_isPrefixOf? hafter)]
  induction before with
  | nil =>
      rw [List.nil_append, cutAt.eq_def, hself]
  | cons d before ih =>
      rw [holds_cons, Bool.or_eq_false_iff] at h
      have hnone : (start ++ [c]).isPrefixOf? (d :: before ++ (start ++ [c] ++ rest)) = none := by
        rw [← Option.not_isSome_iff_eq_none, isSome_isPrefixOf?, List.isPrefixOf_iff_prefix]
        intro hprefix
        have hstart := prefix_of_prefix_append hc (List.cons_ne_nil d before) hprefix
        rw [← List.isPrefixOf_iff_prefix, h.1] at hstart
        cases hstart
      rw [cutAt.eq_def, hnone, List.cons_append]
      dsimp only
      rw [ih h.2]
      rfl

/-- A run of word characters is not continued by what begins with none. -/
theorem words_append (h : ∀ c ∈ rest.head?, isWord c = false) :
    (cs ++ rest).takeWhile isWord = cs.takeWhile isWord ∧
      (cs ++ rest).dropWhile isWord = cs.dropWhile isWord ++ rest := by
  induction cs with
  | nil =>
      cases rest with
      | nil => exact ⟨rfl, rfl⟩
      | cons c rest =>
          have hc : ¬ isWord c = true := Bool.eq_false_iff.1 (h c rfl)
          exact ⟨List.takeWhile_cons_of_neg hc, List.dropWhile_cons_of_neg hc⟩
  | cons c cs ih =>
      rw [List.cons_append]
      by_cases hc : isWord c = true
      · rw [List.takeWhile_cons_of_pos hc, List.takeWhile_cons_of_pos hc,
          List.dropWhile_cons_of_pos hc, List.dropWhile_cons_of_pos hc]
        exact ⟨congrArg _ ih.1, ih.2⟩
      · rw [List.takeWhile_cons_of_neg hc, List.takeWhile_cons_of_neg hc,
          List.dropWhile_cons_of_neg hc, List.dropWhile_cons_of_neg hc]
        exact ⟨rfl, rfl⟩

end

/-! ## Bars -/

/-- Whether a character opens or closes something in a text that is split at bars, or is one. -/
def isSplitMark (c : Char) : Bool :=
  isQuote c || c == '[' || c == '(' || c == ']' || c == ')' || c == '|'

theorem isSplitMark_of_isWord {c : Char} (h : isWord c = true) : isSplitMark c = false := by
  rw [Bool.eq_false_iff]
  intro hmark
  simp only [isSplitMark, isQuote, Bool.or_eq_true, beq_iff_eq] at hmark
  rcases hmark with (((((rfl | rfl) | rfl) | rfl) | rfl) | rfl) | rfl <;>
    exact ne_true_of_eq_false (isWord_of_mem_marks (by decide)) h

theorem isSplitMark_of_isAsciiWord {c : Char} (h : isAsciiWord c = true) :
    isSplitMark c = false := by
  rw [Bool.eq_false_iff]
  intro hmark
  simp only [isSplitMark, isQuote, Bool.or_eq_true, beq_iff_eq] at hmark
  rcases hmark with (((((rfl | rfl) | rfl) | rfl) | rfl) | rfl) | rfl <;>
    exact absurd h (by decide)

/-- A text is not split where it has no marks. -/
theorem splitFrom_append {cs rest first : List Char} {parts : List (List Char)}
    (hcs : ∀ c ∈ cs, isSplitMark c = false)
    (hrest : ∀ previous, previous ≠ some '|' →
      splitFrom '|' none previous 0 none rest = first :: parts)
    (previous : Option Char) (hprevious : previous ≠ some '|') :
    splitFrom '|' none previous 0 none (cs ++ rest) = (cs ++ first) :: parts := by
  induction cs generalizing previous with
  | nil => exact hrest previous hprevious
  | cons c cs ih =>
      obtain ⟨hc, hcs⟩ := List.forall_mem_cons.1 hcs
      simp only [isSplitMark, Bool.or_eq_false_iff, beq_eq_false_iff_ne] at hc
      obtain ⟨⟨⟨⟨⟨hquote, hsquare⟩, hround⟩, hsquare'⟩, hround'⟩, hbar⟩ := hc
      rw [List.cons_append, splitFrom]
      simp only [hquote, hsquare, hround, hsquare', hround', hbar, Bool.false_eq_true, if_false,
        Bool.or_false, Bool.false_and, beq_eq_false_iff_ne.2, ne_eq, not_false_eq_true]
      rw [ih hcs (some c) (by simpa using hbar)]
      rfl

theorem split_of_plain {cs : List Char} (hcs : ∀ c ∈ cs, isSplitMark c = false) :
    split '|' none cs = [cs] := by
  have hnone : ∀ previous, previous ≠ some '|' → splitFrom '|' none previous 0 none [] = [[]] :=
    fun previous _ => by rw [splitFrom]
  have hparts := splitFrom_append hcs hnone none (by decide)
  rwa [List.append_nil] at hparts

/-- A text is split at its first bar if that is not doubled. -/
theorem split_at_bar {cs rest : List Char} (hcs : ∀ c ∈ cs, isSplitMark c = false)
    (hrest : rest.head? ≠ some '|') :
    split '|' none (cs ++ '|' :: rest) = cs :: splitFrom '|' none (some '|') 0 none rest := by
  have hbar : ∀ previous, previous ≠ some '|' → splitFrom '|' none previous 0 none ('|' :: rest) =
      [] :: splitFrom '|' none (some '|') 0 none rest := by
    intro previous hprevious
    have hdoubled : isDoubledBar '|' previous rest = false := by
      rw [isDoubledBar, beq_false_of_ne hprevious, beq_false_of_ne hrest]
      rfl
    rw [splitFrom]
    simp only [hdoubled]
    rfl
  rw [split, splitFrom_append hcs hbar none (by decide), List.append_nil]

end RandomTables.Text
