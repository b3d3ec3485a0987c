-- SUMMARY: Texts that are scanned to given tokens in front of whatever ends them.
import RandomTables.Proofs.Expr.Tokenizing
import RandomTables.Proofs.Number.Numeral

/-!
# Lexemes in front of a text

`Scans cs ts` says that a text is scanned to some tokens and that scanning goes on behind it. A
text put together from such pieces is such a piece. A lexeme is one if what follows does not belong
to it: names and numerals have to be `Delimited`, and quoted texts and marks are not cut short by
anything.
-/
namespace RandomTables.Token

open Text

/-- A text that begins with a blank, a closing parenthesis or a comma, if with anything. -/
def Delimited (rest : List Char) : Prop := ∀ c ∈ rest.head?, c ∈ [' ', ')', ',']

/-- A text at a position in front of another is scanned to its tokens, then the other one is. -/
def Scans (cs : List Char) (ts : List Token) (position : Nat) (rest : List Char) : Prop :=
  scanFrom (cs ++ rest) position 0 = (scanFrom rest (position + cs.length) 0).map (ts ++ ·)

section

variable {cs cs' rest : List Char} {ts ts' : List Token} {position : Nat}

/-! ## Pieces -/

theorem scanFrom_append (cs rest : List Char) (position : Nat) :
    scanFrom (cs ++ rest) position cs.length = scanFrom rest (position + cs.length) 0 := by
  induction cs generalizing position with
  | nil => rfl
  | cons c cs ih => rw [List.cons_append, List.length_cons, scanFrom, ih, Nat.add_assoc, Nat.add_comm 1]

theorem Scans.nil : Scans [] [] position rest := by
  unfold Scans
  rw [List.nil_append, List.length_nil, Nat.add_zero]
  rcases scanFrom rest position 0 with e | ts <;> rfl

theorem Scans.append (h : Scans cs ts position (cs' ++ rest))
    (h' : Scans cs' ts' (position + cs.length) rest) :
    Scans (cs ++ cs') (ts ++ ts') position rest := by
  unfold Scans at *
  rw [List.append_assoc, h, h', List.length_append, Nat.add_assoc]
  rcases scanFrom rest (position + (cs.length + cs'.length)) 0 with e | us
  · rfl
  · exact congrArg Except.ok (List.append_assoc ts ts' us).symm

theorem Scans.blank : Scans [' '] [] position rest := by
  have hblank : isBlank ' ' = true := by decide
  unfold Scans
  rw [List.singleton_append, scanFrom, if_pos hblank, List.length_singleton]
  rcases scanFrom rest (position + 1) 0 with e | ts <;> rfl

/-- A lexeme is a piece with one token. -/
theorem Scans.lexeme {c : Char} {used value : List Char} {kind : TokenKind}
    (hblank : isBlank c = false)
    (h : Token.lexeme c (used ++ rest) = .ok ⟨kind, value, used.length + 1⟩) :
    Scans (c :: used) [⟨kind, value, position, used.length + 1⟩] position rest := by
  unfold Scans
  rw [List.cons_append, scanFrom, if_neg (ne_true_of_eq_false hblank), h]
  simp only [Nat.add_sub_cancel]
  rw [scanFrom_append, List.length_cons, Nat.add_comm used.length, ← Nat.add_assoc]
  rfl

/-! ## What ends a lexeme -/

theorem Delimited.isWord (h : Delimited rest) : ∀ c ∈ rest.head?, isWord c = false := by
  have hmarks : [' ', ')', ','] ⊆ Text.marks := by decide
  exact fun c hc => Text.isWord_of_mem_marks (hmarks (h c hc))

theorem Delimited.isDigit (h : Delimited rest) : ∀ c ∈ rest.head?, isDigit c = false := by
  have hmarks : [' ', ')', ','] ⊆ Text.marks := by decide
  exact fun c hc => Text.isDigit_of_mem_marks (hmarks (h c hc))

theorem Delimited.ne_point (h : Delimited rest) : ∀ c ∈ rest.head?, c ≠ '.' := by
  have hpoint : '.' ∉ [' ', ')', ','] := by decide
  exact fun c hc heq => hpoint (heq ▸ h c hc)

theorem dottedName_of_delimited (h : Delimited rest) : dottedName rest = [] := by
  cases rest with
  | nil => rfl
  | cons c rest =>
      rw [dottedName.eq_def]
      dsimp only
      rw [if_neg (ne_true_of_eq_false (h.isWord c rfl)), if_neg (by simpa using h.ne_point c rfl)]

/-- A name in front of what ends it is scanned as a whole. -/
theorem dottedName_delimited {name : List Char} (hname : dottedName name = name)
    (hrest : Delimited rest) : dottedName (name ++ rest) = name := by
  have hdotted : Dotted name := hname ▸ dotted_dottedName name
  clear hname
  induction hdotted with
  | nil => exact dottedName_of_delimited hrest
  | word hc h ih =>
      rw [List.cons_append, dottedName.eq_def]
      simp [hc, ih]
  | point hc h ih =>
      rw [List.cons_append, List.cons_append, dottedName.eq_def]
      rw [List.cons_append] at ih
      simp [hc, ih, isWord_of_mem_marks (c := '.') (by decide)]

/-! ## Lexemes -/

theorem scans_variable {name : List Char} (hname : dottedName name = name)
    (hrest : Delimited rest) :
    Scans ('$' :: name) [⟨.variable, name, position, name.length + 1⟩] position rest := by
  refine .lexeme (by decide) ?_
  rw [lexeme_other (isDigit_of_mem_marks (by decide)) (by decide), dottedName_delimited hname hrest]
  rfl

theorem scans_placeholder {name : List Char} (hname : dottedName name = name) (hne : name ≠ [])
    (hrest : Delimited rest) :
    Scans ('@' :: name) [⟨.placeholder, name, position, name.length + 1⟩] position rest := by
  have hempty : name.isEmpty = false := by simpa using hne
  refine .lexeme (by decide) ?_
  rw [lexeme_other (isDigit_of_mem_marks (by decide)) (by decide), dottedName_delimited hname hrest,
    hempty]
  rfl

/-- A text without quotes and backslashes stands between quotes as it is. -/
theorem body_of_plain {quote : Char} {value : List Char} (hvalue : quote ∉ value ∧ '\\' ∉ value) :
    Body quote value value := by
  induction value with
  | nil => exact .nil
  | cons c value ih =>
      simp only [List.mem_cons, not_or] at hvalue
      obtain ⟨⟨hquote, hvalue⟩, hslash, hslashes⟩ := hvalue
      exact .other (Ne.symm hslash) (Ne.symm hquote) (ih ⟨hvalue, hslashes⟩)

/-- A text without quotes and backslashes is scanned between quotes as it is. -/
theorem scans_string {value : List Char} (hvalue : '"' ∉ value ∧ '\\' ∉ value) :
    Scans ('"' :: (value ++ ['"'])) [⟨.string, value, position, value.length + 2⟩] position rest := by
  have hsize : (value ++ ['"']).length + 1 = value.length + 2 := by simp
  rw [← hsize]
  refine .lexeme (by decide) ?_
  rw [List.append_assoc, List.singleton_append, lexeme_string (.inl rfl), hsize,
    quoted_of_body (by decide) (body_of_plain hvalue)]

/-- An exclamation mark is a lexeme unless an equals sign follows. -/
theorem scans_not (hrest : rest.head? ≠ some '=') :
    Scans ['!'] [⟨.not, ['!'], position, 1⟩] position rest := by
  have htwo : operator2 ('!' :: rest) = none := by
    unfold operator2
    split
    all_goals first
      | rfl
      | (rename_i heq; cases heq <;> exact absurd rfl hrest)
  refine .lexeme (by decide) ?_
  rw [List.nil_append, lexeme_sign (by decide), htwo]
  rfl

/-- The digits of a number are scanned as a numeral. -/
theorem scans_digits {digits : List Char} (hdigits : ∀ c ∈ digits, Text.isDigit c = true)
    (hne : digits ≠ []) (hrest : Delimited rest) :
    Scans digits [⟨.number, digits, position, digits.length⟩] position rest := by
  obtain ⟨c, used, rfl⟩ := List.exists_cons_of_ne_nil hne
  have hc := hdigits c List.mem_cons_self
  have hrun : Token.digits (c :: used ++ rest) = c :: used :=
    (Number.span_eq hdigits hrest.isDigit).1
  have hfraction : startsFraction rest = false := by
    rw [Bool.eq_false_iff]
    intro h
    obtain ⟨d, tail, rfl, -⟩ := startsFraction_iff.1 h
    exact hrest.ne_point '.' rfl rfl
  have hnumeral : numeral (c :: used ++ rest) = c :: used := by
    rw [numeral_of_whole (by rw [hrun, List.drop_left, hfraction]), hrun]
  have hblank : isBlank c = false :=
    isBlank_of_isWord (by simp [isWord, isAlnum, isNumeric, hc])
  refine .lexeme hblank ?_
  rw [lexeme_number (.inl hc), ← List.cons_append, hnumeral]
  rfl

end

end RandomTables.Token
