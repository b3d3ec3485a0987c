-- SUMMARY: Splitting a text outside quotes and brackets, closing brackets, and quoted texts.
import RandomTables.Text.Basic

/-!
# Quotes and brackets

A quote opened by either quote character lasts up to the same character; a backslash inside it
covers the next character. Square and round brackets outside quotes nest. `split` cuts a text at a
separator that stands outside all of them, and `closingOffset` finds the bracket that closes an open
one.
-/
namespace RandomTables.Text

/-- Whether a character opens and closes quotes. -/
def isQuote (c : Char) : Bool := c == '"' || c == '\''

/-! ## Splitting -/

/-- Puts a character in front of the first part. -/
def consFirst (c : Char) : List (List Char) → List (List Char)
  | [] => [[c]]
  | part :: parts => (c :: part) :: parts

/-- Two bars in a row are an operator and never separate. -/
def isDoubledBar (separator : Char) (previous : Option Char) (rest : List Char) : Bool :=
  separator == '|' && (previous == some '|' || rest.head? == some '|')

/-- The parts of a text between separators outside quotes and brackets, given the character before
it, the depth of brackets and the open quote. At most `budget` separators are used. -/
def splitFrom (separator : Char) :
    Option Nat → Option Char → Int → Option Char → List Char → List (List Char)
  | _, _, _, _, [] => [[]]
  | budget, _, depth, some quote, c :: rest =>
    if c == '\\' then
      match rest with
      | [] => [[c]]
      | d :: rest =>
        consFirst c (consFirst d (splitFrom separator budget (some d) depth (some quote) rest))
    else
      consFirst c (splitFrom separator budget (some c) depth
        (if c == quote then none else some quote) rest)
  | budget, previous, depth, none, c :: rest =>
    if isQuote c then consFirst c (splitFrom separator budget (some c) depth (some c) rest)
    else if c == '[' || c == '(' then
      consFirst c (splitFrom separator budget (some c) (depth + 1) none rest)
    else if c == ']' || c == ')' then
      consFirst c (splitFrom separator budget (some c) (depth - 1) none rest)
    else if c == separator && depth == 0 && budget != some 0
        && !isDoubledBar separator previous rest then
      [] :: splitFrom separator (budget.map (· - 1)) (some c) depth none rest
    else consFirst c (splitFrom separator budget (some c) depth none rest)

/-- The parts of a text between separators outside quotes and brackets. -/
def split (separator : Char) (budget : Option Nat) (cs : List Char) : List (List Char) :=
  splitFrom separator budget none 0 none cs

theorem length_le_of_mem_consFirst {c : Char} {parts : List (List Char)} {n : Nat}
    (h : ∀ p ∈ parts, p.length ≤ n) : ∀ p ∈ consFirst c parts, p.length ≤ n + 1 := by
  cases parts with
  | nil => simp [consFirst]
  | cons part parts =>
    intro p hp
    simp only [consFirst, List.mem_cons] at hp
    rcases hp with rfl | hp
    · simpa using h part (by simp)
    · exact Nat.le_succ_of_le (h p (by simp [hp]))

theorem length_le_of_mem_splitFrom {separator : Char} {budget : Option Nat}
    {previous : Option Char} {depth : Int} {quote : Option Char} {cs : List Char} :
    ∀ p ∈ splitFrom separator budget previous depth quote cs, p.length ≤ cs.length := by
  fun_induction splitFrom separator budget previous depth quote cs with
  | case1 => simp
  | case2 => simp
  | case3 _ _ _ _ _ _ _ _ ih =>
    exact length_le_of_mem_consFirst (length_le_of_mem_consFirst ih)
  | case4 _ _ _ _ _ _ _ ih => exact length_le_of_mem_consFirst ih
  | case5 _ _ _ _ _ _ ih => exact length_le_of_mem_consFirst ih
  | case6 _ _ _ _ _ _ _ ih => exact length_le_of_mem_consFirst ih
  | case7 _ _ _ _ _ _ _ _ ih => exact length_le_of_mem_consFirst ih
  | case8 _ _ _ _ _ _ _ _ _ ih =>
    intro p hp
    simp only [List.mem_cons] at hp
    rcases hp with rfl | hp
    · simp
    · exact Nat.le_succ_of_le (ih p hp)
  | case9 _ _ _ _ _ _ _ _ _ ih => exact length_le_of_mem_consFirst ih

theorem length_le_of_mem_split {separator : Char} {budget : Option Nat} {cs p : List Char}
    (h : p ∈ split separator budget cs) : p.length ≤ cs.length :=
  length_le_of_mem_splitFrom p h

/-! ## Closing brackets -/

/-- The offset of the square bracket that brings the depth to zero. -/
def closingOffset : Int → Option Char → List Char → Option Nat
  | _, _, [] => none
  | depth, some quote, c :: rest =>
    if c == '\\' then
      match rest with
      | [] => none
      | _ :: rest => (closingOffset depth (some quote) rest).map (· + 2)
    else (closingOffset depth (if c == quote then none else some quote) rest).map (· + 1)
  | depth, none, c :: rest =>
    if isQuote c then (closingOffset depth (some c) rest).map (· + 1)
    else if c == '[' then (closingOffset (depth + 1) none rest).map (· + 1)
    else if c == ']' then
      if depth = 1 then some 0 else (closingOffset (depth - 1) none rest).map (· + 1)
    else (closingOffset depth none rest).map (· + 1)

/-- What stands before the bracket that closes an open one, and what stands after it. -/
def cutBracket (cs : List Char) : Option (List Char × List Char) :=
  (closingOffset 1 none cs).map fun i => (cs.take i, cs.drop (i + 1))

theorem closingOffset_lt {depth : Int} {quote : Option Char} {cs : List Char} {i : Nat}
    (h : closingOffset depth quote cs = some i) : i < cs.length := by
  fun_induction closingOffset depth quote cs generalizing i with
  | case1 => simp at h
  | case2 => simp at h
  | case3 _ _ _ _ _ _ ih =>
    obtain ⟨j, hj, rfl⟩ := Option.map_eq_some_iff.1 h
    have := ih hj
    simp
    omega
  | case7 => simp at h; simp [← h]
  | _ =>
    rename_i ih
    obtain ⟨j, hj, rfl⟩ := Option.map_eq_some_iff.1 h
    have := ih hj
    simp
    omega

theorem length_of_cutBracket {cs body rest : List Char} (h : cutBracket cs = some (body, rest)) :
    body.length + rest.length + 1 = cs.length := by
  obtain ⟨i, hi, he⟩ := Option.map_eq_some_iff.1 h
  have := closingOffset_lt hi
  simp only [Prod.mk.injEq] at he
  obtain ⟨rfl, rfl⟩ := he
  simp
  omega

/-! ## Quoted texts -/

/-- Whether a text, blanks aside, begins and ends with the same quote character. -/
def inQuotes (cs : List Char) : Bool :=
  match trim cs with
  | c :: d :: rest => isQuote c && (d :: rest).getLast? == some c
  | _ => false

/-- What a quoted text stands for: line feeds, tabs and quotes may be written with a backslash. -/
def unquoted (cs : List Char) : List Char :=
  let body := ((trim cs).drop 1).dropLast
  replacePair '\\' '\'' '\'' (replacePair '\\' '"' '"'
    (replacePair '\\' 't' '\t' (replacePair '\\' 'n' '\n' body)))

end RandomTables.Text
