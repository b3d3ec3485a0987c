-- SUMMARY: A quoted separator behind a bar is cut off as one modifier, whatever it holds.
import RandomTables.Directive.Form
import RandomTables.Proofs.Pattern.Tiling
import RandomTables.Proofs.Text.Cutting

/-!
# Modifiers behind a text

A text that leaves brackets and quotes closed and has no bar outside them is `Level`: what follows
it is split as if it stood alone. A separator in quotes behind such a text is therefore its only
modifier, and it is read as it is written.
-/
namespace RandomTables

namespace Text

/-! ## Level texts -/

/-- No character of the text opens or closes anything, and none is a bar. -/
def Unmarked (cs : List Char) : Prop := ∀ c ∈ cs, isSplitMark c = false

theorem unmarked_of_any {cs : List Char} (h : cs.any isSplitMark = false) : Unmarked cs :=
  fun c hc => Bool.eq_false_iff.2 (List.any_eq_false.1 h c hc)

/-- Behind the text, splitting goes on as at the start, with the text in front of the first part. -/
def Level (cs : List Char) : Prop :=
  ∀ (rest first : List Char) (parts : List (List Char)),
    (∀ previous, previous ≠ some '|' →
      splitFrom '|' none previous 0 none rest = first :: parts) →
    ∀ previous, previous ≠ some '|' →
      splitFrom '|' none previous 0 none (cs ++ rest) = (cs ++ first) :: parts

section

variable {cs cs' : List Char}

theorem Unmarked.append (h : Unmarked cs) (h' : Unmarked cs') : Unmarked (cs ++ cs') :=
  List.forall_mem_append.2 ⟨h, h'⟩

theorem Unmarked.cons {c : Char} (hc : isSplitMark c = false) (h : Unmarked cs) :
    Unmarked (c :: cs) := List.forall_mem_cons.2 ⟨hc, h⟩

theorem Unmarked.level (h : Unmarked cs) : Level cs := fun _ _ _ hrest => splitFrom_append h hrest

theorem Level.append (h : Level cs) (h' : Level cs') : Level (cs ++ cs') := by
  intro rest first parts hrest
  rw [List.append_assoc, List.append_assoc]
  exact h _ _ _ (h' _ _ _ hrest)

/-- Square brackets around a text without marks are level. -/
theorem level_bracketed (h : Unmarked cs) : Level ('[' :: (cs ++ [']'])) := by
  intro rest first parts hrest previous hprevious
  have hinner : ∀ previous, splitFrom '|' none previous 1 none (cs ++ ']' :: rest) =
      (cs ++ ']' :: first) :: parts := by
    clear previous hprevious
    induction cs with
    | nil =>
        intro previous
        have hclose : splitFrom '|' none previous 1 none (']' :: rest) =
            consFirst ']' (splitFrom '|' none (some ']') 0 none rest) := by
          rw [splitFrom]
          rfl
        rw [List.nil_append, hclose, hrest (some ']') (by decide)]
        rfl
    | cons c cs ih =>
        intro previous
        obtain ⟨hc, hcs⟩ := List.forall_mem_cons.1 h
        simp only [isSplitMark, Bool.or_eq_false_iff] at hc
        obtain ⟨⟨⟨⟨⟨hquote, hsquare⟩, hround⟩, hsquare'⟩, hround'⟩, hbar⟩ := hc
        rw [List.cons_append, splitFrom]
        simp only [hquote, hsquare, hround, hsquare', hround', hbar, Bool.false_eq_true, if_false,
          Bool.or_false, Bool.false_and]
        rw [ih hcs]
        rfl
  have hopen : splitFrom '|' none previous 0 none ('[' :: (cs ++ ']' :: rest)) =
      consFirst '[' (splitFrom '|' none (some '[') 1 none (cs ++ ']' :: rest)) := by
    rw [splitFrom]
    rfl
  rw [List.cons_append, List.append_assoc, List.singleton_append, hopen, hinner]
  simp [consFirst]

/-! ## Separators -/

/-- A separator as it is written. -/
def quotedText (separator : List Char) : List Char := '"' :: (separator ++ ['"'])

variable {separator : List Char}

theorem splitFrom_quotedText (h : '"' ∉ separator ∧ '\\' ∉ separator) (previous : Option Char) :
    splitFrom '|' none previous 0 none (quotedText separator) = [quotedText separator] := by
  have hinner : ∀ (separator : List Char), '"' ∉ separator → '\\' ∉ separator →
      ∀ previous, splitFrom '|' none previous 0 (some '"') (separator ++ ['"']) =
        [separator ++ ['"']] := by
    intro separator hquote hslash
    induction separator with
    | nil => exact fun _ => rfl
    | cons c separator ih =>
        intro previous
        obtain ⟨hc, hquote⟩ := not_or.1 (mt List.mem_cons.2 hquote)
        obtain ⟨hc', hslash⟩ := not_or.1 (mt List.mem_cons.2 hslash)
        rw [List.cons_append, splitFrom.eq_def]
        dsimp only
        rw [if_neg (by simpa using Ne.symm hc'), if_neg (by simpa using Ne.symm hc), ih hquote hslash]
        rfl
  have hopen : splitFrom '|' none previous 0 none (quotedText separator) =
      consFirst '"' (splitFrom '|' none (some '"') 0 (some '"') (separator ++ ['"'])) := by
    rw [quotedText, splitFrom]
    rfl
  rw [hopen, hinner separator h.1 h.2]
  rfl

/-- A separator behind a level text is split off. -/
theorem Level.split_separator (h : Level cs) (hseparator : '"' ∉ separator ∧ '\\' ∉ separator) :
    split '|' none (cs ++ '|' :: quotedText separator) = [cs, quotedText separator] := by
  have hbar : ∀ previous, previous ≠ some '|' →
      splitFrom '|' none previous 0 none ('|' :: quotedText separator) =
        [] :: [quotedText separator] := by
    intro previous hprevious
    have hdoubled : isDoubledBar '|' previous (quotedText separator) = false := by
      rw [isDoubledBar, beq_false_of_ne hprevious]
      rfl
    rw [splitFrom]
    simp only [hdoubled]
    rw [← splitFrom_quotedText hseparator (some '|')]
    rfl
  rw [split, h _ _ _ hbar none (by decide), List.append_nil]

/-- A text without the separating character is not split. -/
theorem split_of_not_mem {mark : Char} (h : mark ∉ cs) : split mark none cs = [cs] := by
  have hall : ∀ (budget : Option Nat) (previous : Option Char) (depth : Int) (quote : Option Char)
      (cs : List Char), mark ∉ cs → splitFrom mark budget previous depth quote cs = [cs] := by
    intro budget previous depth quote cs h
    fun_induction splitFrom mark budget previous depth quote cs with
    | case1 => rfl
    | case2 => rfl
    | case3 _ _ _ _ c hc d rest ih =>
        simp only [List.mem_cons, not_or] at h
        rw [ih h.2.2]
        rfl
    | case8 _ _ _ c rest _ _ _ hbar ih =>
        simp only [Bool.and_eq_true, beq_iff_eq] at hbar
        exact absurd (hbar.1.1.1 ▸ List.mem_cons_self) h
    | _ =>
        rename_i ih
        rw [ih (mt (List.mem_cons_of_mem _) h)]
        rfl
  exact hall none none 0 none cs h

end

theorem replacePair_of_not_mem {a b new : Char} {cs : List Char} (h : a ∉ cs) :
    replacePair a b new cs = cs := by
  fun_induction replacePair a b new cs with
  | case1 x y rest hpair ih =>
      simp only [Bool.and_eq_true, beq_iff_eq] at hpair
      exact absurd (hpair.1 ▸ List.mem_cons_self) h
  | case2 x y rest hpair ih => rw [ih (mt (List.mem_cons_of_mem x) h)]
  | case3 => rfl

/-! ## Trimmed texts -/

theorem unmarked_of_blanks {cs : List Char} (h : ∀ c ∈ cs, isBlank c = true) : Unmarked cs := by
  have hblank : ∀ {c : Char}, isBlank c = true → isSplitMark c = false := by
    intro c hc
    rw [Bool.eq_false_iff]
    intro hmark
    simp only [isSplitMark, isQuote, Bool.or_eq_true, beq_iff_eq] at hmark
    rcases hmark with (((((rfl | rfl) | rfl) | rfl) | rfl) | rfl) | rfl <;>
      exact absurd hc (by decide)
  exact fun c hc => hblank (h c hc)

theorem trim_quotedText (separator : List Char) : trim (quotedText separator) = quotedText separator := by
  refine trim_of_ends rfl ?_
  rw [quotedText, ← List.cons_append, List.getLast?_concat]
  decide

/-- Only what stands in front of a separator is trimmed, and only at its start. -/
theorem trim_separator (cs separator : List Char) :
    trim (cs ++ '|' :: quotedText separator) = trimStart cs ++ '|' :: quotedText separator := by
  have hstart : trimStart (cs ++ '|' :: quotedText separator) =
      trimStart cs ++ '|' :: quotedText separator := by
    rw [trimStart, trimStart, List.dropWhile_append]
    split
    · rename_i hempty
      rw [List.isEmpty_iff.1 hempty]
      rfl
    · rfl
  have hend : ∀ c ∈ (trimStart cs ++ '|' :: quotedText separator).getLast?, isBlank c = false := by
    have hlast : (trimStart cs ++ '|' :: quotedText separator).getLast? = some '"' := by
      rw [quotedText, ← List.cons_append, ← List.cons_append, ← List.append_assoc, List.getLast?_concat]
    rw [hlast]
    intro c hc
    obtain rfl := Option.some.inj hc
    decide
  rw [trim, hstart]
  refine List.rdropWhile_eq_self_iff.2 fun hne => Bool.eq_false_iff.1 (hend _ ?_)
  exact List.getLast?_eq_some_getLast hne

/-- A text without the blanks at its start is the trimmed text with blanks behind it. -/
theorem exists_trimStart (cs : List Char) :
    ∃ blanks, (∀ c ∈ blanks, isBlank c = true) ∧ trimStart cs = trim cs ++ blanks := by
  refine ⟨((trimStart cs).reverse.takeWhile isBlank).reverse, ?_, ?_⟩
  · exact fun c hc => List.mem_takeWhile_imp (List.mem_reverse.1 hc)
  · rw [trim, trimEnd, ← List.reverse_append, List.takeWhile_append_dropWhile, List.reverse_reverse]

theorem mem_of_mem_trim {cs : List Char} {c : Char} (h : c ∈ trim cs) : c ∈ cs := by
  obtain ⟨blanks, -, hstart⟩ := exists_trimStart cs
  exact (List.dropWhile_sublist _).mem (hstart ▸ List.mem_append_left blanks h)

theorem trim_trimStart (cs : List Char) : trim (trimStart cs) = trim cs := by
  rw [trim, trim, trimStart, trimStart, List.dropWhile_idempotent]

theorem trim_append_blanks (cs : List Char) {blanks : List Char}
    (h : ∀ c ∈ blanks, isBlank c = true) : trim (cs ++ blanks) = trim cs := by
  have hend : ∀ kept : List Char, trimEnd (kept ++ blanks) = trimEnd kept := by
    intro kept
    rw [trimEnd, trimEnd, List.reverse_append,
      List.dropWhile_append_of_pos fun c hc => h c (List.mem_reverse.1 hc)]
  have hnil : blanks.dropWhile isBlank = [] := List.dropWhile_eq_nil_iff.2 h
  rw [trim, trim, trimStart, trimStart, List.dropWhile_append]
  split
  · rename_i hempty
    rw [hnil, List.isEmpty_iff.1 hempty]
  · exact hend _

/-- Only the end of a text is trimmed behind what does not begin with a blank. -/
theorem trim_append {head cs : List Char} (hhead : trimStart head = head) (hne : head ≠ [])
    (hcs : trim cs ≠ []) :
    ∃ blanks, (∀ c ∈ blanks, isBlank c = true) ∧ trim (head ++ cs) = head ++ (blanks ++ trim cs) := by
  refine ⟨cs.takeWhile isBlank, fun c hc => List.mem_takeWhile_imp hc, ?_⟩
  obtain ⟨behind, hbehind, hstart⟩ := exists_trimStart cs
  have hcut : head ++ cs = (head ++ (cs.takeWhile isBlank ++ trim cs)) ++ behind := by
    rw [List.append_assoc, List.append_assoc, ← hstart, trimStart, List.takeWhile_append_dropWhile]
  have hwhole : trimStart (head ++ (cs.takeWhile isBlank ++ trim cs)) =
      head ++ (cs.takeWhile isBlank ++ trim cs) := by
    rw [trimStart] at hhead
    rw [trimStart, List.dropWhile_append, hhead, if_neg (by simpa using hne)]
  have hend : trimEnd (trim cs) = trim cs := by
    rw [trim, trimEnd, trimEnd, List.reverse_reverse, List.dropWhile_idempotent]
  rw [hcut, trim_append_blanks _ hbehind, trim, hwhole, trimEnd, ← List.append_assoc,
    List.reverse_append, List.dropWhile_append, if_neg, List.reverse_append, List.reverse_reverse]
  · exact congrArg _ hend
  · rw [trimEnd, List.reverse_eq_iff] at hend
    simpa [hend] using hcs

end Text

namespace Directive

open Text

section

variable {cs separator : List Char}

/-- A text without bars has no modifiers. -/
theorem cutModifiers_of_not_mem (h : '|' ∉ cs) : cutModifiers cs = (trim cs, []) := by
  rw [cutModifiers, split_of_not_mem h]
  rfl

variable (hseparator : '"' ∉ separator ∧ '\\' ∉ separator)
include hseparator

theorem cutModifiers_separator (h : Level cs) :
    cutModifiers (cs ++ '|' :: quotedText separator) = (trim cs, [quotedText separator]) := by
  rw [cutModifiers, h.split_separator hseparator, List.map_cons, List.map_singleton, trim_quotedText]

/-- Between quotes, a separator is read as it is written. -/
theorem readModifiers_separator (raw : List Char) (flag : Option String) :
    readModifiers raw flag [quotedText separator] = .ok (some (String.ofList separator), false) := by
  have hquoted : inQuotes (quotedText separator) = true := by
    rw [inQuotes, trim_quotedText]
    cases separator with
    | nil => rfl
    | cons c rest =>
        change (isQuote '"' && (c :: (rest ++ ['"'])).getLast? == some '"') = true
        rw [← List.cons_append, List.getLast?_concat]
        rfl
  have hunquoted : unquoted (quotedText separator) = separator := by
    have hbody : ((quotedText separator).drop 1).dropLast = separator := by simp [quotedText]
    have hsame : ∀ b new : Char, replacePair '\\' b new separator = separator :=
      fun _ _ => replacePair_of_not_mem hseparator.2
    rw [unquoted, trim_quotedText, hbody, hsame, hsame, hsame, hsame]
  rw [readModifiers, if_pos hquoted, hunquoted]
  rfl

/-- Blanks in front of the bar are passed over. -/
theorem cutModifiers_behind (h : Level (trim cs)) {blanks : List Char}
    (hblanks : ∀ c ∈ blanks, isBlank c = true) :
    cutModifiers (trim (cs ++ (blanks ++ '|' :: quotedText separator))) =
      (trim cs, [quotedText separator]) := by
  obtain ⟨behind, hbehind, hstart⟩ := exists_trimStart (cs ++ blanks)
  rw [trim_append_blanks cs hblanks] at hstart
  have hlevel : Level (trimStart (cs ++ blanks)) := by
    rw [hstart]
    exact h.append (unmarked_of_blanks hbehind).level
  rw [← List.append_assoc, trim_separator, cutModifiers_separator hseparator hlevel,
    trim_trimStart, trim_append_blanks cs hblanks]

end

end Directive

end RandomTables
