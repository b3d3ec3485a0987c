-- SUMMARY: The spans of a pattern between double braces, and the pieces of a pattern.
import RandomTables.Text.Basic

/-!
# Spans

A pattern is text with directives between double braces. A span reaches from an opening pair to the
first closing pair after it. Blank spans are text, and so is everything from an opening pair that
nothing closes.
-/
namespace RandomTables

/-- A directive in a pattern: the text with its braces, the text between them without surrounding
blanks, and the positions where it starts and stops. -/
structure Span where
  raw : List Char
  expression : List Char
  start : Nat
  stop : Nat
  deriving DecidableEq, Repr

namespace Span

def opening : List Char := ['\x7b', '\x7b']

def closing : List Char := ['\x7d', '\x7d']

theorem length_of_cutAt {mark cs before after : List Char}
    (h : Text.cutAt mark cs = some (before, after)) :
    cs.length = before.length + mark.length + after.length := by
  rw [← Text.append_of_cutAt h]
  simp only [List.length_append]

/-- The spans of a text that begins at a position. -/
def findFrom (position : Nat) (cs : List Char) : List Span :=
  match _hopen : Text.cutAt opening cs with
  | none => []
  | some (before, after) =>
    match _hclose : Text.cutAt closing after with
    | none => []
    | some (inner, rest) =>
      let start := position + before.length
      let stop := start + (inner.length + 4)
      let more := findFrom stop rest
      if (Text.trim inner).isEmpty then more
      else ⟨opening ++ inner ++ closing, Text.trim inner, start, stop⟩ :: more
  termination_by cs.length
  decreasing_by
    have h1 := length_of_cutAt _hopen
    have h2 := length_of_cutAt _hclose
    simp only [opening, closing, List.length_cons, List.length_nil] at h1 h2
    omega

/-- The spans of a pattern. -/
def find (pattern : List Char) : List Span := findFrom 0 pattern

end Span

/-- A stretch of a pattern: text, or a directive. -/
inductive Piece where
  | literal (text : List Char) (start : Nat)
  | directive (span : Span)
  deriving DecidableEq, Repr

namespace Piece

/-- The text from one position to another as a piece, unless it is empty. -/
def gap (pattern : List Char) (start stop : Nat) : List Piece :=
  if start < stop then [.literal (Text.slice pattern start stop) start] else []

/-- The pieces of a pattern from a position on, given the spans after it. -/
def between (pattern : List Char) : Nat → List Span → List Piece
  | last, [] => gap pattern last pattern.length
  | last, span :: rest =>
    gap pattern last span.start ++ .directive span :: between pattern span.stop rest

/-- The pieces of a pattern, in order. -/
def ofPattern (pattern : List Char) : List Piece := between pattern 0 (Span.find pattern)

end Piece

end RandomTables
