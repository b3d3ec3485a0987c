-- SUMMARY: The texts between brackets, and the texts in front of a separator, given by grammars.
import RandomTables.Proofs.Text.Cutting

/-!
# Brackets

What stands between a bracket and the one that closes it is balanced: brackets outside quotes come
in pairs, and every quote is closed. A text is split at the first separator in front of which all
quotes are closed and as many brackets are closed as are opened. Both are told by counting depths;
here they are given by grammars, and the counts are shown to agree with these.
-/
namespace RandomTables.Text

/-! ## Quotes -/

/-- What follows an opening quote, up to and with its closing one. A backslash covers the character
behind it. -/
inductive Quoted (quote : Char) : List Char → Prop where
  | close : Quoted quote [quote]
  | covered {c : Char} {cs : List Char} (h : Quoted quote cs) : Quoted quote ('\\' :: c :: cs)
  | other {c : Char} {cs : List Char} (hcover : c ≠ '\\') (hquote : c ≠ quote)
      (h : Quoted quote cs) : Quoted quote (c :: cs)

theorem ne_backslash_of_isQuote {c : Char} (h : isQuote c = true) : c ≠ '\\' := by
  rintro rfl
  exact absurd h (by decide)

/-! ## Balanced texts -/

/-- A text in which square brackets outside quotes come in pairs and quotes are closed. -/
inductive Balanced : List Char → Prop where
  | nil : Balanced []
  | quoted {quote : Char} {inside rest : List Char} (hquote : isQuote quote = true)
      (hinside : Quoted quote inside) (h : Balanced rest) : Balanced (quote :: (inside ++ rest))
  | bracket {inside rest : List Char} (hinside : Balanced inside) (h : Balanced rest) :
      Balanced ('[' :: (inside ++ ']' :: rest))
  | other {c : Char} {rest : List Char} (hquote : isQuote c = false) (hopen : c ≠ '[')
      (hclose : c ≠ ']') (h : Balanced rest) : Balanced (c :: rest)

theorem balanced_of_plain {cs : List Char} (h : ∀ c ∈ cs, isSplitMark c = false) :
    Balanced cs := by
  induction cs with
  | nil => exact .nil
  | cons c cs ih =>
      obtain ⟨hc, hcs⟩ := List.forall_mem_cons.1 h
      simp only [isSplitMark, Bool.or_eq_false_iff, beq_eq_false_iff_ne] at hc
      exact .other hc.1.1.1.1.1 hc.1.1.1.1.2 hc.1.1.2 (ih hcs)

section

variable {quote c : Char} {depth : Int} {cs inside rest : List Char} {i : Nat}

/-! Closing brackets are looked for character by character. -/

theorem closingOffset_quote (h : isQuote c = true) :
    closingOffset depth none (c :: rest) = (closingOffset depth (some c) rest).map (· + 1) := by
  rw [closingOffset, if_pos h]

theorem closingOffset_open :
    closingOffset depth none ('[' :: rest) = (closingOffset (depth + 1) none rest).map (· + 1) := by
  rw [closingOffset]
  rfl

theorem closingOffset_close (h : depth ≠ 1) :
    closingOffset depth none (']' :: rest) = (closingOffset (depth - 1) none rest).map (· + 1) := by
  rw [closingOffset]
  exact if_neg h

theorem closingOffset_other (hquote : isQuote c = false) (hopen : c ≠ '[') (hclose : c ≠ ']') :
    closingOffset depth none (c :: rest) = (closingOffset depth none rest).map (· + 1) := by
  rw [closingOffset]
  simp only [hquote, Bool.false_eq_true, if_false, beq_eq_false_iff_ne.2 hopen,
    beq_eq_false_iff_ne.2 hclose]

theorem closingOffset_quoted (hquote : isQuote quote = true) (h : Quoted quote inside) :
    closingOffset depth (some quote) (inside ++ rest) =
      (closingOffset depth none rest).map (· + inside.length) := by
  induction h with
  | close =>
      rw [List.singleton_append, closingOffset.eq_def]
      simp [ne_backslash_of_isQuote hquote]
  | covered h ih =>
      rw [List.cons_append, List.cons_append, closingOffset.eq_def]
      simp only [beq_self_eq_true, if_true]
      rw [ih, Option.map_map]
      rfl
  | other hcover hclose h ih =>
      rw [List.cons_append, closingOffset.eq_def]
      simp only [beq_eq_false_iff_ne.2 hcover, beq_eq_false_iff_ne.2 hclose, Bool.false_eq_true,
        if_false]
      rw [ih, Option.map_map]
      rfl

/-- A balanced text inside a bracket does not close it. -/
theorem Balanced.closingOffset_append (h : Balanced cs) (hdepth : 0 < depth) :
    closingOffset depth none (cs ++ rest) =
      (closingOffset depth none rest).map (· + cs.length) := by
  induction h generalizing depth rest with
  | nil => simp
  | quoted hquote hinside h ih =>
      rw [List.cons_append, closingOffset_quote hquote, List.append_assoc,
        closingOffset_quoted hquote hinside, ih hdepth, Option.map_map, Option.map_map]
      congr 1
      funext j
      simp
      omega
  | bracket hinside h ihinside ih =>
      rw [List.cons_append, closingOffset_open, List.append_assoc, List.cons_append,
        ihinside (by omega), closingOffset_close (by omega), Int.add_sub_cancel, ih hdepth]
      simp only [Option.map_map]
      congr 1
      funext j
      simp
      omega
  | other hquote hopen hclose h ih =>
      rw [List.cons_append, closingOffset_other hquote hopen hclose, ih hdepth, Option.map_map]
      rfl

/-- If a bracket is closed behind an opened quote, the quote is closed before. -/
theorem exists_quoted_of_closingOffset :
    ∀ cs, (closingOffset depth (some quote) cs).isSome = true →
      ∃ inside rest, cs = inside ++ rest ∧ Quoted quote inside ∧
        (closingOffset depth none rest).isSome = true
  | [], h => by rw [closingOffset] at h; cases h
  | c :: cs, h => by
      by_cases hcover : c = '\\'
      · subst hcover
        cases cs with
        | nil => rw [closingOffset] at h; cases h
        | cons d cs =>
            rw [closingOffset.eq_def] at h
            simp only [beq_self_eq_true, if_true, Option.isSome_map] at h
            obtain ⟨inside, rest, rfl, hinside, hrest⟩ := exists_quoted_of_closingOffset cs h
            exact ⟨'\\' :: d :: inside, rest, rfl, .covered hinside, hrest⟩
      rw [closingOffset.eq_def] at h
      simp only [beq_eq_false_iff_ne.2 hcover, Bool.false_eq_true, if_false,
        Option.isSome_map] at h
      by_cases hclose : c = quote
      · rw [if_pos (beq_iff_eq.2 hclose)] at h
        exact ⟨[c], cs, rfl, hclose ▸ .close, h⟩
      · rw [if_neg (beq_eq_false_iff_ne.2 hclose ▸ Bool.false_ne_true)] at h
        obtain ⟨inside, rest, rfl, hinside, hrest⟩ := exists_quoted_of_closingOffset cs h
        exact ⟨c :: inside, rest, rfl, .other hcover hclose hinside, hrest⟩

/-- What stands in front of the closing bracket is balanced; if more brackets are open, they are
closed behind it. -/
theorem exists_balanced_of_closingOffset (hdepth : 0 < depth)
    (h : (closingOffset depth none cs).isSome = true) :
    ∃ inside rest, cs = inside ++ ']' :: rest ∧ Balanced inside ∧
      (depth ≠ 1 → (closingOffset (depth - 1) none rest).isSome = true) := by
  induction hlength : cs.length using Nat.strong_induction_on generalizing cs depth with
  | h n ih =>
  subst hlength
  rcases cs with _ | ⟨c, cs⟩
  · rw [closingOffset] at h
    cases h
  by_cases hquote : isQuote c = true
  · rw [closingOffset_quote hquote, Option.isSome_map] at h
    obtain ⟨inside, rest, rfl, hinside, hrest⟩ := exists_quoted_of_closingOffset cs h
    have hless : rest.length < (c :: (inside ++ rest)).length := by
      rw [List.length_cons, List.length_append]
      omega
    obtain ⟨more, rest, rfl, hmore, hdeeper⟩ := ih rest.length hless hdepth hrest rfl
    exact ⟨c :: (inside ++ more), rest, by simp, .quoted hquote hinside hmore, hdeeper⟩
  rw [Bool.not_eq_true] at hquote
  by_cases hopen : c = '['
  · subst hopen
    rw [closingOffset_open, Option.isSome_map] at h
    obtain ⟨inside, rest, rfl, hinside, hrest⟩ :=
      ih cs.length (by simp) (by omega) h rfl
    have hrest := hrest (by omega)
    rw [Int.add_sub_cancel] at hrest
    have hless : rest.length < ('[' :: (inside ++ ']' :: rest)).length := by
      simp only [List.length_cons, List.length_append]
      omega
    obtain ⟨more, rest, rfl, hmore, hdeeper⟩ := ih rest.length hless hdepth hrest rfl
    exact ⟨'[' :: (inside ++ ']' :: more), rest, by simp, .bracket hinside hmore, hdeeper⟩
  by_cases hclose : c = ']'
  · subst hclose
    refine ⟨[], cs, rfl, .nil, fun hne => ?_⟩
    rwa [closingOffset_close hne, Option.isSome_map] at h
  · rw [closingOffset_other hquote hopen hclose, Option.isSome_map] at h
    obtain ⟨inside, rest, rfl, hinside, hdeeper⟩ := ih cs.length (by simp) hdepth h rfl
    exact ⟨c :: inside, rest, rfl, .other hquote hopen hclose hinside, hdeeper⟩

/-- A bracket is cut where the text behind it is balanced up to a closing one. -/
theorem cutBracket_eq_some_iff :
    cutBracket cs = some (inside, rest) ↔ Balanced inside ∧ cs = inside ++ ']' :: rest := by
  have hcut : ∀ {inside rest}, Balanced inside →
      cutBracket (inside ++ ']' :: rest) = some (inside, rest) := fun h => by
    rw [cutBracket, h.closingOffset_append Int.one_pos, closingOffset.eq_def]
    simp [isQuote]
  constructor
  · intro h
    obtain ⟨i, hi, -⟩ := Option.map_eq_some_iff.1 h
    obtain ⟨inside', rest', rfl, hbalanced, -⟩ :=
      exists_balanced_of_closingOffset Int.one_pos (Option.isSome_of_eq_some hi)
    rw [hcut hbalanced] at h
    obtain ⟨rfl, rfl⟩ := Prod.mk.inj (Option.some.inj h)
    exact ⟨hbalanced, rfl⟩
  · rintro ⟨h, rfl⟩
    exact hcut h

end

/-! ## Texts in front of a separator -/

/-- A text that closes its quotes and leads from a depth of brackets, square or round, to none, and
in which the separator stands nowhere outside both. -/
inductive Unsplit (separator : Char) : Int → List Char → Prop where
  | nil : Unsplit separator 0 []
  | quoted {depth : Int} {quote : Char} {inside rest : List Char} (hquote : isQuote quote = true)
      (hinside : Quoted quote inside) (h : Unsplit separator depth rest) :
      Unsplit separator depth (quote :: (inside ++ rest))
  | opening {depth : Int} {c : Char} {rest : List Char} (hc : c = '[' ∨ c = '(')
      (h : Unsplit separator (depth + 1) rest) : Unsplit separator depth (c :: rest)
  | closing {depth : Int} {c : Char} {rest : List Char} (hc : c = ']' ∨ c = ')')
      (h : Unsplit separator (depth - 1) rest) : Unsplit separator depth (c :: rest)
  | other {depth : Int} {c : Char} {rest : List Char} (hquote : isQuote c = false)
      (hopen : ¬ (c = '[' ∨ c = '(')) (hclose : ¬ (c = ']' ∨ c = ')'))
      (hseparator : c = separator → depth ≠ 0) (h : Unsplit separator depth rest) :
      Unsplit separator depth (c :: rest)

section

variable {separator quote c : Char} {budget : Option Nat} {previous : Option Char} {depth : Int}
  {cs inside rest first second : List Char}

theorem consFirst_eq_pair {parts : List (List Char)} :
    consFirst c parts = [first, second] ↔ ∃ tail, first = c :: tail ∧ parts = [tail, second] := by
  cases parts with
  | nil => simp [consFirst]
  | cons part parts =>
      simp only [consFirst, List.cons.injEq]
      constructor
      · rintro ⟨rfl, rfl⟩
        exact ⟨part, rfl, rfl, rfl⟩
      · rintro ⟨tail, rfl, rfl, rfl⟩
        exact ⟨rfl, rfl⟩

/-! A text is split character by character. -/

theorem splitFrom_quote (h : isQuote c = true) :
    splitFrom separator budget previous depth none (c :: rest) =
      consFirst c (splitFrom separator budget (some c) depth (some c) rest) := by
  rw [splitFrom, if_pos h]

theorem splitFrom_opening (h : c = '[' ∨ c = '(') :
    splitFrom separator budget previous depth none (c :: rest) =
      consFirst c (splitFrom separator budget (some c) (depth + 1) none rest) := by
  rcases h with rfl | rfl <;> (rw [splitFrom]; rfl)

theorem splitFrom_closing (h : c = ']' ∨ c = ')') :
    splitFrom separator budget previous depth none (c :: rest) =
      consFirst c (splitFrom separator budget (some c) (depth - 1) none rest) := by
  rcases h with rfl | rfl <;> (rw [splitFrom]; rfl)

/-- The rest of a text is not split when no separator may be used any more. -/
theorem splitFrom_spent (hbudget : budget = some 0) (opened : Option Char) :
    splitFrom separator budget previous depth opened cs = [cs] := by
  fun_induction splitFrom separator budget previous depth opened cs with
  | case1 => rfl
  | case2 => rfl
  | case8 _ _ _ _ _ _ _ _ hmark => simp [hbudget] at hmark
  | _ => simp_all [consFirst]

theorem splitFrom_quoted (hquote : isQuote quote = true) (hinside : Quoted quote inside)
    (hrest : ∀ previous, splitFrom separator budget previous depth none rest = [first, second])
    (previous : Option Char) :
    splitFrom separator budget previous depth (some quote) (inside ++ rest) =
      [inside ++ first, second] := by
  induction hinside generalizing previous with
  | close =>
      rw [List.singleton_append, splitFrom.eq_def]
      simp [ne_backslash_of_isQuote hquote, hrest, consFirst]
  | covered h ih =>
      rw [List.cons_append, List.cons_append, splitFrom.eq_def]
      simp [ih, consFirst]
  | other hcover hclose h ih =>
      rw [List.cons_append, splitFrom.eq_def]
      simp [hcover, hclose, ih, consFirst]

/-- If a text is split behind an opened quote, the quote is closed before. -/
theorem exists_quoted_of_splitFrom :
    ∀ (cs : List Char) (previous : Option Char) (first : List Char),
      splitFrom separator budget previous depth (some quote) cs = [first, second] →
        ∃ inside rest tail previous, cs = inside ++ rest ∧ first = inside ++ tail ∧
          Quoted quote inside ∧
            splitFrom separator budget previous depth none rest = [tail, second]
  | [], _, _, h => by simp [splitFrom] at h
  | c :: cs, previous, first, h => by
      by_cases hcover : c = '\\'
      · subst hcover
        cases cs with
        | nil => simp [splitFrom] at h
        | cons d cs =>
            rw [splitFrom.eq_def] at h
            simp only [beq_self_eq_true, if_true, consFirst_eq_pair] at h
            obtain ⟨_, rfl, first, rfl, hsplit⟩ := h
            obtain ⟨inside, rest, tail, previous, rfl, rfl, hinside, hrest⟩ :=
              exists_quoted_of_splitFrom cs _ _ hsplit
            exact ⟨'\\' :: d :: inside, rest, tail, previous, rfl, rfl, .covered hinside, hrest⟩
      · rw [splitFrom.eq_def] at h
        simp only [beq_eq_false_iff_ne.2 hcover, Bool.false_eq_true, if_false,
          consFirst_eq_pair] at h
        obtain ⟨first, rfl, h⟩ := h
        by_cases hclose : c = quote
        · rw [if_pos (beq_iff_eq.2 hclose)] at h
          exact ⟨[c], cs, first, _, rfl, rfl, hclose ▸ .close, h⟩
        · rw [if_neg (beq_eq_false_iff_ne.2 hclose ▸ Bool.false_ne_true)] at h
          obtain ⟨inside, rest, tail, previous, rfl, rfl, hinside, hrest⟩ :=
            exists_quoted_of_splitFrom cs _ _ h
          exact ⟨c :: inside, rest, tail, previous, rfl, rfl, .other hcover hclose hinside, hrest⟩

/-- A character outside quotes that is no quote and no bracket separates if it is the separator, no
bracket is open, it may be used, and it is not one of two bars in a row. -/
theorem splitFrom_plain (hquote : isQuote c = false) (hopen : ¬ (c = '[' ∨ c = '('))
    (hclose : ¬ (c = ']' ∨ c = ')')) :
    splitFrom separator budget previous depth none (c :: rest) =
      if c = separator ∧ depth = 0 ∧ budget ≠ some 0 ∧ isDoubledBar separator previous rest = false
      then [] :: splitFrom separator (budget.map (· - 1)) (some c) depth none rest
      else consFirst c (splitFrom separator budget (some c) depth none rest) := by
  rw [splitFrom]
  simp only [hquote, Bool.or_eq_true, beq_iff_eq, hopen, hclose, Bool.and_eq_true, bne_iff_ne,
    Bool.not_eq_true', Bool.false_eq_true, if_false, and_assoc]

variable (hbar : separator ≠ '|')
include hbar

theorem isDoubledBar_eq_false : isDoubledBar separator previous rest = false := by
  rw [isDoubledBar, beq_false_of_ne hbar, Bool.false_and]

theorem splitFrom_other (hquote : isQuote c = false) (hopen : ¬ (c = '[' ∨ c = '('))
    (hclose : ¬ (c = ']' ∨ c = ')')) :
    splitFrom separator (some 1) previous depth none (c :: rest) =
      if c = separator ∧ depth = 0 then [[], rest]
      else consFirst c (splitFrom separator (some 1) (some c) depth none rest) := by
  simp [splitFrom_plain hquote hopen hclose, isDoubledBar_eq_false hbar, splitFrom_spent]

theorem Unsplit.splitFrom_append (hplain : isSplitMark separator = false)
    (h : Unsplit separator depth cs) (previous : Option Char) :
    splitFrom separator (some 1) previous depth none (cs ++ separator :: rest) = [cs, rest] := by
  simp only [isSplitMark, Bool.or_eq_false_iff, beq_eq_false_iff_ne] at hplain
  obtain ⟨⟨⟨⟨⟨hquote, hsquare⟩, hround⟩, hsquare'⟩, hround'⟩, -⟩ := hplain
  induction h generalizing previous with
  | nil =>
      rw [List.nil_append, splitFrom_other hbar hquote (by tauto) (by tauto), if_pos ⟨rfl, rfl⟩]
  | quoted hquote hinside h ih =>
      rw [List.cons_append, List.append_assoc, splitFrom_quote hquote,
        splitFrom_quoted hquote hinside ih]
      rfl
  | opening hc h ih =>
      rw [List.cons_append, splitFrom_opening hc, ih]
      rfl
  | closing hc h ih =>
      rw [List.cons_append, splitFrom_closing hc, ih]
      rfl
  | other hquote hopen hclose hseparator h ih =>
      rw [List.cons_append, splitFrom_other hbar hquote hopen hclose,
        if_neg fun hends => hseparator hends.1 hends.2, ih]
      rfl

/-- A text is split in two where the first separator is that stands outside quotes and brackets. -/
theorem unsplit_of_splitFrom
    (h : splitFrom separator (some 1) previous depth none cs = [first, second]) :
    cs = first ++ separator :: second ∧ Unsplit separator depth first := by
  induction hlength : cs.length using Nat.strong_induction_on
    generalizing cs depth previous first with
  | h n ih =>
  subst hlength
  rcases cs with _ | ⟨c, cs⟩
  · simp [splitFrom] at h
  by_cases hquote : isQuote c = true
  · rw [splitFrom_quote hquote, consFirst_eq_pair] at h
    obtain ⟨first, rfl, h⟩ := h
    obtain ⟨inside, rest, tail, previous, rfl, rfl, hinside, hrest⟩ :=
      exists_quoted_of_splitFrom cs _ _ h
    have hless : rest.length < (c :: (inside ++ rest)).length := by
      rw [List.length_cons, List.length_append]
      omega
    obtain ⟨rfl, htail⟩ := ih rest.length hless hrest rfl
    exact ⟨by simp, .quoted hquote hinside htail⟩
  rw [Bool.not_eq_true] at hquote
  by_cases hopen : c = '[' ∨ c = '('
  · rw [splitFrom_opening hopen, consFirst_eq_pair] at h
    obtain ⟨first, rfl, h⟩ := h
    obtain ⟨rfl, hfirst⟩ := ih cs.length (by simp) h rfl
    exact ⟨rfl, .opening hopen hfirst⟩
  by_cases hclose : c = ']' ∨ c = ')'
  · rw [splitFrom_closing hclose, consFirst_eq_pair] at h
    obtain ⟨first, rfl, h⟩ := h
    obtain ⟨rfl, hfirst⟩ := ih cs.length (by simp) h rfl
    exact ⟨rfl, .closing hclose hfirst⟩
  rw [splitFrom_other hbar hquote hopen hclose] at h
  split at h
  · rename_i hseparator
    obtain ⟨rfl, rfl⟩ := hseparator
    obtain ⟨rfl, rfl⟩ : [] = first ∧ cs = second := by simpa using h
    exact ⟨rfl, .nil⟩
  · rename_i hseparator
    rw [consFirst_eq_pair] at h
    obtain ⟨first, rfl, h⟩ := h
    obtain ⟨rfl, hfirst⟩ := ih cs.length (by simp) h rfl
    exact ⟨rfl, .other hquote hopen hclose (fun hc hdepth => hseparator ⟨hc, hdepth⟩) hfirst⟩

omit hbar in
theorem split_eq_pair_iff (hplain : isSplitMark separator = false) :
    split separator (some 1) cs = [first, second] ↔
      cs = first ++ separator :: second ∧ Unsplit separator 0 first := by
  have hbar : separator ≠ '|' := by
    rintro rfl
    exact absurd hplain (by decide)
  constructor
  · exact unsplit_of_splitFrom hbar
  · rintro ⟨rfl, h⟩
    exact h.splitFrom_append hbar hplain none

end

end RandomTables.Text
