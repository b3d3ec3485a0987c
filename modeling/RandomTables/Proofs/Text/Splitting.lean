-- SUMMARY: Parts of a split text join to the text again, and no part splits any further.
import RandomTables.Proofs.Text.Brackets

/-!
# Splitting and joining

The parts of a text with the separator between them are the text, however many separators may be
used. Behind a separator that is used no bracket and no quote is open, so each part is read as if it
stood alone. Only the rule that two bars in a row separate nothing looks at the characters around,
and it finds the same ones there: bars in a row come into the same part.
-/
namespace RandomTables.Text

section

variable {separator c : Char} {budget : Option Nat} {previous : Option Char} {depth : Int}
  {opened : Option Char} {cs rest first : List Char} {more : List (List Char)}

/-! ## Joining -/

theorem intercalate_consFirst (separator c : Char) (parts : List (List Char)) :
    [separator].intercalate (consFirst c parts) = c :: [separator].intercalate parts := by
  rcases parts with _ | ⟨part, _ | ⟨next, parts⟩⟩ <;> simp [consFirst]

theorem exists_splitFrom (separator : Char) (budget : Option Nat) (previous : Option Char)
    (depth : Int) (opened : Option Char) (cs : List Char) :
    ∃ first more, splitFrom separator budget previous depth opened cs = first :: more := by
  obtain ⟨first, more, hparts, -⟩ := parts_splitFrom separator budget previous depth opened cs
  exact ⟨first, more, hparts⟩

theorem prefix_of_splitFrom
    (h : splitFrom separator budget previous depth opened cs = first :: more) : first <+: cs := by
  obtain ⟨_, _, hparts, hprefix, -⟩ := parts_splitFrom separator budget previous depth opened cs
  rw [h, List.cons.injEq] at hparts
  exact hparts.1 ▸ hprefix

theorem intercalate_splitFrom :
    [separator].intercalate (splitFrom separator budget previous depth opened cs) = cs := by
  fun_induction splitFrom separator budget previous depth opened cs with
  | case1 => simp
  | case2 => simp
  | case3 _ _ _ _ _ _ _ _ ih => simp [intercalate_consFirst, ih]
  | case8 budget previous depth c rest _ _ _ hused ih =>
      obtain ⟨first, more, hparts⟩ :=
        exists_splitFrom separator (budget.map (· - 1)) (some c) depth none rest
      have hc : c = separator := by
        simp only [Bool.and_eq_true, beq_iff_eq] at hused
        exact hused.1.1.1
      rw [hparts] at ih ⊢
      simp [List.intercalate_cons_cons, ih, hc]
  | _ => simp_all [intercalate_consFirst]

theorem length_consFirst_le {parts : List (List Char)} {n : Nat} (h : parts.length ≤ n + 1) :
    (consFirst c parts).length ≤ n + 1 := by
  cases parts with
  | nil => simp [consFirst]
  | cons part parts => simpa [consFirst] using h

theorem length_splitFrom_le {n : Nat} (hbudget : budget = some n) :
    (splitFrom separator budget previous depth opened cs).length ≤ n + 1 := by
  fun_induction splitFrom separator budget previous depth opened cs generalizing n with
  | case8 budget previous depth c rest _ _ _ hused ih =>
      subst hbudget
      have hn : n ≠ 0 := by
        simp only [Bool.and_eq_true, bne_iff_ne, ne_eq, Option.some.injEq] at hused
        exact hused.1.2
      have hless := ih (n := n - 1) rfl
      simp only [List.length_cons]
      omega
  | _ => simp_all [length_consFirst_le]

/-! ## Reading from a character on -/

/-- What stands before a text matters for a bar at its start only. -/
theorem splitFrom_previous (h : separator = '|' → cs.head? ≠ some '|')
    (previous previous' : Option Char) :
    splitFrom separator budget previous depth none cs =
      splitFrom separator budget previous' depth none cs := by
  cases cs with
  | nil => simp [splitFrom]
  | cons c rest =>
      by_cases hc : c = separator
      · have hbar : separator ≠ '|' := fun hbar => h hbar (by simp [hc, hbar])
        rw [splitFrom.eq_def, splitFrom.eq_def]
        simp [isDoubledBar, hbar]
      · rw [splitFrom.eq_def, splitFrom.eq_def]
        simp [hc]

/-- The part that begins with the bar behind a bar has that bar. -/
theorem head?_of_splitFrom_bar
    (h : splitFrom '|' budget (some '|') depth none ('|' :: rest) = first :: more) :
    first.head? = some '|' := by
  obtain ⟨next, others, hparts⟩ := exists_splitFrom '|' budget (some '|') depth none rest
  rw [splitFrom] at h
  simp [isQuote, isDoubledBar, hparts, consFirst] at h
  simp [← h.1]

/-- A bar that is one of two in a row still is where the text behind it ends with its part. -/
theorem isDoubledBar_of_splitFrom (hbar : isDoubledBar c previous rest = true)
    (h : splitFrom c budget (some c) depth none rest = first :: more) :
    isDoubledBar c previous first = true := by
  simp only [isDoubledBar, Bool.and_eq_true, Bool.or_eq_true, beq_iff_eq] at hbar ⊢
  obtain ⟨rfl, hprevious | hnext⟩ := hbar
  · exact ⟨rfl, .inl hprevious⟩
  · obtain ⟨rest, rfl⟩ := List.head?_eq_some_iff.1 hnext
    exact ⟨rfl, .inr (head?_of_splitFrom_bar h)⟩

theorem head?_of_single (hbar : separator = '|') (h : isDoubledBar separator previous rest = false)
    (hfirst : first <+: rest) : first.head? ≠ some '|' := by
  rintro hhead
  obtain ⟨tail, rfl⟩ := List.head?_eq_some_iff.1 hhead
  obtain ⟨after, rfl⟩ := hfirst
  simp [isDoubledBar, hbar] at h

/-! ## Parts that stand alone -/

/-- Parts of which the first is not split where the whole text is read, and the others are not where
a text begins. -/
def Final (separator : Char) (previous : Option Char) (depth : Int) (opened : Option Char)
    (parts : List (List Char)) : Prop :=
  ∃ first more, parts = first :: more ∧
    splitFrom separator none previous depth opened first = [first] ∧
    ∀ part ∈ more, split separator none part = [part]

namespace Final

theorem whole (h : splitFrom separator none previous depth opened cs = [cs]) :
    Final separator previous depth opened [cs] :=
  ⟨cs, [], rfl, h, fun _ hpart => nomatch hpart⟩

/-- A character that only changes how the first part is read belongs to it. -/
theorem consFirst {previous' opened' : Option Char} {depth' : Int} {parts : List (List Char)}
    (h : Final separator previous' depth' opened' parts)
    (hread : ∀ first more, parts = first :: more →
      splitFrom separator none previous depth opened (c :: first) =
        Text.consFirst c (splitFrom separator none previous' depth' opened' first)) :
    Final separator previous depth opened (Text.consFirst c parts) := by
  obtain ⟨first, more, rfl, hfirst, hmore⟩ := h
  refine ⟨c :: first, more, rfl, ?_, hmore⟩
  rw [hread first more rfl, hfirst, Text.consFirst]

end Final

/-- Each part is read as a whole: the first one as the text is, and the others as if they stood
alone. -/
theorem final_splitFrom (hbudget : budget = none) :
    Final separator previous depth opened
      (splitFrom separator budget previous depth opened cs) := by
  fun_induction splitFrom separator budget previous depth opened cs with
  | case1 => exact .whole (by simp [splitFrom])
  | case2 => exact .whole (by simp [splitFrom, *])
  | case3 budget previous depth quote c hcover d rest ih =>
      obtain ⟨first, more, hparts, hfirst, hmore⟩ := ih hbudget
      refine ⟨c :: d :: first, more, by simp [hparts, consFirst], ?_, hmore⟩
      rw [splitFrom.eq_def]
      simp [hcover, hfirst, consFirst]
  | case4 budget previous depth quote c rest hcover ih =>
      refine (ih hbudget).consFirst fun first more _ => ?_
      rw [splitFrom.eq_def]
      simp [hcover]
  | case5 budget previous depth c rest hquote ih =>
      exact (ih hbudget).consFirst fun first more _ => splitFrom_quote hquote
  | case6 budget previous depth c rest hquote hopen ih =>
      exact (ih hbudget).consFirst fun first more _ => splitFrom_opening (by simpa using hopen)
  | case7 budget previous depth c rest hquote hopen hclose ih =>
      exact (ih hbudget).consFirst fun first more _ => splitFrom_closing (by simpa using hclose)
  | case8 budget previous depth c rest hquote hopen hclose hused ih =>
      simp only [Bool.and_eq_true, beq_iff_eq, Bool.not_eq_true'] at hused
      obtain ⟨⟨⟨rfl, rfl⟩, -⟩, hsingle⟩ := hused
      obtain ⟨first, more, hparts, hfirst, hmore⟩ := ih (by simp [hbudget])
      refine ⟨[], first :: more, by rw [hparts], by simp [splitFrom], ?_⟩
      rw [List.forall_mem_cons]
      refine ⟨?_, hmore⟩
      have hprefix := prefix_of_splitFrom hparts
      have hhead (hbar : c = '|') := head?_of_single hbar hsingle hprefix
      rw [split, splitFrom_previous hhead none (some c), hfirst]
  | case9 budget previous depth c rest hquote hopen hclose hunused ih =>
      refine (ih hbudget).consFirst fun first more hparts => ?_
      rw [splitFrom_plain (by simpa using hquote) (by simpa using hopen) (by simpa using hclose),
        if_neg]
      rintro ⟨rfl, rfl, -, hsingle⟩
      simp [hbudget] at hunused
      rw [isDoubledBar_of_splitFrom hunused hparts] at hsingle
      cases hsingle

/-! ## Texts around a separator -/

/-- A text that closes its quotes and leads from a depth of brackets to none. -/
inductive Shut : Int → List Char → Prop where
  | nil : Shut 0 []
  | quoted {depth : Int} {quote : Char} {inside rest : List Char} (hquote : isQuote quote = true)
      (hinside : Quoted quote inside) (h : Shut depth rest) :
      Shut depth (quote :: (inside ++ rest))
  | opening {depth : Int} {c : Char} {rest : List Char} (hc : c = '[' ∨ c = '(')
      (h : Shut (depth + 1) rest) : Shut depth (c :: rest)
  | closing {depth : Int} {c : Char} {rest : List Char} (hc : c = ']' ∨ c = ')')
      (h : Shut (depth - 1) rest) : Shut depth (c :: rest)
  | other {depth : Int} {c : Char} {rest : List Char} (hquote : isQuote c = false)
      (hopen : ¬ (c = '[' ∨ c = '(')) (hclose : ¬ (c = ']' ∨ c = ')')) (h : Shut depth rest) :
      Shut depth (c :: rest)

@[simp]
theorem consFirst_ne_nil (c : Char) (parts : List (List Char)) : consFirst c parts ≠ [] := by
  cases parts <;> simp [consFirst]

theorem consFirst_append {parts others : List (List Char)} (h : parts ≠ []) :
    consFirst c (parts ++ others) = consFirst c parts ++ others := by
  cases parts with
  | nil => exact absurd rfl h
  | cons part parts => rfl

@[simp]
theorem splitFrom_ne_nil : splitFrom separator budget previous depth opened cs ≠ [] := by
  obtain ⟨first, more, hparts⟩ := exists_splitFrom separator budget previous depth opened cs
  simp [hparts]

/-- The character before what follows a text is the last one of the text. -/
theorem getLast?_cons_or (c : Char) (cs : List Char) (previous : Option Char) :
    (c :: cs).getLast?.or previous = cs.getLast?.or (some c) := by
  rw [List.getLast?_cons]
  cases cs.getLast? <;> rfl

theorem Quoted.getLast? {quote : Char} {inside : List Char} (h : Quoted quote inside) :
    inside.getLast? = some quote := by
  induction h with
  | close => rfl
  | covered h ih => simp [List.getLast?_cons, ih]
  | other _ _ h ih => simp [List.getLast?_cons, ih]

/-- Parts that follow behind a closed quote follow behind what stands in it. -/
theorem splitFrom_quoted_append {quote : Char} {inside rest' : List Char}
    {others : List (List Char)} (hquote : isQuote quote = true) (hinside : Quoted quote inside)
    (h : splitFrom separator budget (some quote) depth none rest =
      splitFrom separator budget (some quote) depth none rest' ++ others)
    (previous : Option Char) :
    splitFrom separator budget previous depth (some quote) (inside ++ rest) =
      splitFrom separator budget previous depth (some quote) (inside ++ rest') ++ others := by
  induction hinside generalizing previous with
  | close =>
      rw [splitFrom.eq_def, splitFrom.eq_def]
      simp [ne_backslash_of_isQuote hquote, h, consFirst_append]
  | covered _ ih =>
      rw [List.cons_append, List.cons_append, splitFrom.eq_def, splitFrom.eq_def]
      simp [ih, consFirst_append]
  | other hcover hclose _ ih =>
      rw [List.cons_append, splitFrom.eq_def, splitFrom.eq_def]
      simp [hcover, hclose, ih, consFirst_append]

/-- A separator outside quotes and brackets separates what stands around it, unless it is one of two
bars in a row. -/
theorem Shut.splitFrom_append {before after : List Char} (h : Shut depth before)
    (hquote : isQuote separator = false) (hopen : ¬ (separator = '[' ∨ separator = '('))
    (hclose : ¬ (separator = ']' ∨ separator = ')'))
    (hsingle : isDoubledBar separator (before.getLast?.or previous) after = false) :
    splitFrom separator none previous depth none (before ++ separator :: after) =
      splitFrom separator none previous depth none before ++ split separator none after := by
  induction h generalizing previous with
  | nil =>
      have hhead (hbar : separator = '|') : after.head? ≠ some '|' := by
        rintro hhead
        simp [isDoubledBar, hbar, hhead] at hsingle
      rw [List.nil_append, splitFrom_plain hquote hopen hclose, if_pos (by simpa using hsingle),
        split, splitFrom_previous hhead none (some separator)]
      simp [splitFrom]
  | quoted hquoted hinside h ih =>
      rw [getLast?_cons_or, List.getLast?_append, hinside.getLast?] at hsingle
      rw [List.cons_append, splitFrom_quote hquoted, splitFrom_quote hquoted, List.append_assoc,
        splitFrom_quoted_append hquoted hinside (ih (by simpa using hsingle)),
        consFirst_append splitFrom_ne_nil]
  | opening hc h ih =>
      rw [getLast?_cons_or] at hsingle
      rw [List.cons_append, splitFrom_opening hc, splitFrom_opening hc, ih hsingle,
        consFirst_append splitFrom_ne_nil]
  | closing hc h ih =>
      rw [getLast?_cons_or] at hsingle
      rw [List.cons_append, splitFrom_closing hc, splitFrom_closing hc, ih hsingle,
        consFirst_append splitFrom_ne_nil]
  | @other depth c rest hquote' hopen' hclose' h ih =>
      rw [getLast?_cons_or] at hsingle
      -- what follows the character is the same in both texts unless the separator follows it
      have hbars : c = separator → isDoubledBar separator previous (rest ++ separator :: after) =
          isDoubledBar separator previous rest := by
        rintro rfl
        cases rest with
        | nil =>
            have hc : c ≠ '|' := by
              rintro rfl
              simp [isDoubledBar] at hsingle
            simp [isDoubledBar, beq_false_of_ne hc]
        | cons d rest => simp [isDoubledBar]
      rw [List.cons_append, splitFrom_plain hquote' hopen' hclose',
        splitFrom_plain hquote' hopen' hclose', ih hsingle, consFirst_append splitFrom_ne_nil]
      by_cases hc : c = separator
      · rw [hbars hc]
        split
        · simp [ih hsingle]
        · rfl
      · simp [hc]

end

/-- Any number of separators joins the parts to the text again, and each part of a text that is
split wherever possible is split no further. A separator outside quotes and brackets is used unless
it is one of two bars in a row. -/
theorem split_lossless {separator : Char} (hseparator : separator ∈ ['|', ':']) (cs : List Char) :
    (∀ budget, [separator].intercalate (split separator budget cs) = cs) ∧
    (∀ n, (split separator (some n) cs).length ≤ n + 1) ∧
    (∀ part ∈ split separator none cs, split separator none part = [part]) ∧
    ∀ before after, cs = before ++ separator :: after → Shut 0 before →
      isDoubledBar separator before.getLast? after = false →
        split separator none cs = split separator none before ++ split separator none after := by
  refine ⟨fun _ => intercalate_splitFrom, fun _ => length_splitFrom_le rfl, ?_, ?_⟩
  · obtain ⟨first, more, hparts, hfirst, hmore⟩ :
        Final separator none 0 none (split separator none cs) := final_splitFrom rfl
    rw [hparts, List.forall_mem_cons]
    exact ⟨hfirst, hmore⟩
  · rintro before after rfl hbefore hsingle
    rw [List.mem_cons, List.mem_singleton] at hseparator
    refine hbefore.splitFrom_append ?_ ?_ ?_ (by simpa using hsingle)
    all_goals rcases hseparator with rfl | rfl <;> decide

theorem split_lossless_of_bars :
    '|' ∈ ['|', ':'] ∧ "'|'||b".toList ∈ split '|' none "(|)|'|'||b".toList ∧
      split '|' none "'|'||b".toList = ["'|'||b".toList] ∧ Shut 0 "(|)".toList ∧
      isDoubledBar '|' "(|)".toList.getLast? "'|'||b".toList = false ∧
      split '|' none "(|)|'|'||b".toList =
        split '|' none "(|)".toList ++ split '|' none "'|'||b".toList := by
  have hmark : '|' ∈ ['|', ':'] := by decide
  have hparts : split '|' none "(|)|'|'||b".toList = ["(|)".toList, "'|'||b".toList] := by cbv
  have hpart : "'|'||b".toList ∈ split '|' none "(|)|'|'||b".toList := by
    rw [hparts]
    exact List.mem_cons_of_mem _ List.mem_cons_self
  have hshut : Shut 0 "(|)".toList :=
    .opening (.inr rfl) (.other (by decide) (by decide) (by decide) (.closing (.inr rfl) .nil))
  have hsingle : isDoubledBar '|' "(|)".toList.getLast? "'|'||b".toList = false := by cbv
  obtain ⟨-, -, hfinal, hcut⟩ := split_lossless hmark "(|)|'|'||b".toList
  exact ⟨hmark, hpart, hfinal _ hpart, hshut, hsingle, hcut _ _ rfl hshut hsingle⟩

end RandomTables.Text
