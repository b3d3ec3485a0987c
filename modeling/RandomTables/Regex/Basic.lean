-- SUMMARY: Search patterns: their syntax, and which characters a set of characters holds.
import RandomTables.Text.Basic
import RandomTables.Text.Case
import RandomTables.Text.Letter
import RandomTables.Text.Surrogate

/-!
# Search patterns

A pattern is built from single characters, sets of them, anchors, sequences, alternatives and
repetitions. What it matches is said in `Match`; here are the patterns and their characters.

A text is searched as a list of places. A place knows its letter and all letters that count as the
same: when case is ignored, those are the letters of either case, otherwise the letter alone.
-/
namespace RandomTables

namespace Regex

/-- A class of characters with a letter of its own. -/
inductive Category where
  | digit | space | word
  deriving DecidableEq, Repr

/-- One item of a set of characters. A range is given by code points. -/
inductive SetItem where
  | char (c : Char)
  | range (low high : Nat)
  | category (c : Category) (negated : Bool)
  deriving DecidableEq, Repr

/-- How a repetition chooses among its possible lengths: it prefers more, prefers less, or takes
what it can and never gives any of it back. -/
inductive Greed where
  | most | least | all
  deriving DecidableEq, Repr

/-- A condition on a position. -/
inductive Anchor where
  | textStart
  /-- The end of the text, or just before a line feed that ends it. -/
  | lastLineEnd
  | textEnd
  | wordBoundary (negated : Bool)
  deriving DecidableEq, Repr

end Regex

inductive Regex where
  /-- Any character but a line feed. -/
  | any
  | set (negated : Bool) (items : List Regex.SetItem)
  | anchor (a : Regex.Anchor)
  | sequence (parts : List Regex)
  | choice (options : List Regex)
  | repeated (least : Nat) (most : Option Nat) (greed : Regex.Greed) (body : Regex)
  | group (body : Regex)
  deriving Repr

namespace Regex

/-- The pattern of a single character. -/
def char (c : Char) : Regex := .set false [.char c]

/-! ## Places -/

/-- A character of the text that is searched. -/
structure Place where
  letter : Char
  /-- The characters that count as this one. -/
  forms : List Char
  deriving DecidableEq, Repr

/-- The characters whose lower case is the given one, and that one. -/
def capitals (lower : Char) : List Char :=
  lower :: (Text.caseRuns.filterMap fun run =>
    let code := Int.toNat (lower.toNat - run.shift)
    if run.first ≤ code ∧ code ≤ run.last ∧ (code - run.first) % run.step = 0 then
      some (Char.ofNat code)
    else none)

/-- The lower-case letters that match a lower-case letter when case is ignored. -/
def siblings (lower : Char) : List Char :=
  lower :: ((Text.caseSiblings.lookup lower.toNat).getD []).map Char.ofNat

/-- A place that is only itself. -/
def Place.exact (c : Char) : Place := ⟨c, [c]⟩

/-- A place that is a letter in any case. -/
def Place.inAnyCase (c : Char) : Place :=
  let lower := Text.lowerChar c
  ⟨lower, (siblings lower).flatMap fun l => (capitals l).filter fun d => Text.lowerChar d == l⟩

/-! ## Sets of characters -/

def Category.contains : Category → Char → Bool
  | .digit, c => Text.isDecimal c
  | .space, c => Text.isBlank c
  | .word, c => Text.isWord c

/-- Whether an item of a set with several items holds a place. A character outside the basic plane
has to be the letter itself. -/
def SetItem.holds (p : Place) : SetItem → Bool
  | .char c => if c.toNat < 0x10000 then p.forms.contains c else p.letter == c
  | .range low high => p.forms.any fun d => low ≤ Text.codeOf d && Text.codeOf d ≤ high
  | .category k negated => k.contains p.letter != negated

/-- Whether a set holds a place. A character that is alone in its set counts in all its forms. -/
def setHolds (items : List SetItem) (p : Place) : Bool :=
  match items with
  | [.char c] => p.forms.contains c
  | items => items.any (·.holds p)

/-! ## Anchors -/

/-- Whether the character at a position exists and belongs to a word. -/
def wordAt (text : Array Place) (i : Nat) : Bool :=
  match text[i]? with
  | some p => Text.isWord p.letter
  | none => false

/-- Whether a position satisfies an anchor. In an empty text there is no place to be at or not at a
word's boundary. -/
def Anchor.holds (text : Array Place) (i : Nat) : Anchor → Bool
  | .textStart => i == 0
  | .lastLineEnd => i == text.size || (i + 1 == text.size && (text[i]?.map (·.letter)) == some '\n')
  | .textEnd => i == text.size
  | .wordBoundary negated =>
    !text.isEmpty && ((0 < i && wordAt text (i - 1)) != wordAt text i) != negated

end Regex

end RandomTables
