-- SUMMARY: Bundles: a collection with everything it imports, as files with names of their own.
import RandomTables.Assoc
import RandomTables.Document.Load
import RandomTables.Registry.Reach
import RandomTables.Text.Basic
import RandomTables.Text.Case

/-!
# Export bundles

A bundle holds a collection and every collection that it imports, directly or not, in breadth-first
order. Import paths that lead nowhere are listed. Each document of a bundle becomes one file with a
name of its own.
-/
namespace RandomTables.Export

/-! ## File names

A namespace becomes a file name of lower-case ASCII letters, digits and single hyphens between them.
Points become hyphens and everything else is left out. -/

/-- Whether a character is kept in a file name. -/
def isNameChar (c : Char) : Bool := c.isLower || c.isDigit || c == '-'

/-- Runs of hyphens made single. -/
def singleHyphens : List Char → List Char
  | '-' :: '-' :: rest => singleHyphens ('-' :: rest)
  | c :: rest => c :: singleHyphens rest
  | [] => []

/-- A text without the hyphens at its ends. -/
def trimHyphens (cs : List Char) : List Char :=
  ((cs.dropWhile (· == '-')).reverse.dropWhile (· == '-')).reverse

/-- The file name, without extension, of a document with a namespace. -/
def fileName (namespaceText : String) : String :=
  let lowered := (Text.lower namespaceText.toList).map fun c => if c == '.' then '-' else c
  let kept := trimHyphens (singleHyphens (lowered.filter isNameChar))
  if kept.isEmpty then "collection" else String.ofList kept

/-! ## Bundles -/

structure Bundle where
  main : Collection
  dependencies : List Collection
  /-- The import paths that lead nowhere, each once. -/
  dangling : List String

namespace Bundle

/-- The collections of a bundle. -/
def collections (b : Bundle) : List Collection := b.main :: b.dependencies

/-- Whether every import leads somewhere. -/
def isComplete (b : Bundle) : Bool := b.dangling.isEmpty

/-- The import paths of a collection that lead nowhere. -/
def danglingPaths (r : Registry) (c : Collection) : List String :=
  ((Link.ofCollection [] c).filter fun l => (r.exportTarget l).isNone).map (·.item.path)

/-- The bundle of a collection. -/
def ofCollection (r : Registry) (c : Collection) : Bundle :=
  let dependencies := (r.reachedInBreadth c).map (·.2)
  { main := c, dependencies
    dangling := ((c :: dependencies).flatMap (danglingPaths r)).eraseDups }

/-- The record of a bundle that is not complete. -/
def records (b : Bundle) : List LogRecord :=
  if b.isComplete then []
  else [⟨.warning, .export, "Export of '" ++ b.main.namespaceText ++ "' has dangling imports: " ++
    String.intercalate ", " b.dangling⟩]

/-! ## Files

The document of each collection is put under the first name that no earlier file has. The names that
are tried differ from one another, so some try comes upon a free one. -/

/-- The file name after some tries: the first try has no number, the next one the number two. -/
def numbered (name : String) : Nat → String
  | 0 => name ++ ".json"
  | tries + 1 => name ++ "-" ++ toString (tries + 2) ++ ".json"

theorem numbered_injective {name : String} {m n : Nat} (h : numbered name m = numbered name n) :
    m = n := by
  have hchars := congrArg String.toList h
  match m, n with
  | 0, 0 => rfl
  | 0, _ + 1 | _ + 1, 0 =>
    have hlength := congrArg List.length hchars
    simp only [numbered, String.toList_append, List.length_append] at hlength
    have hhyphen : "-".toList.length = 1 := rfl
    omega
  | m + 1, n + 1 =>
    simp only [numbered, String.toList_append, List.append_assoc] at hchars
    have hdigits := List.append_cancel_right
      (List.append_cancel_left (List.append_cancel_left hchars))
    simp only [Nat.toString_eq_repr, Nat.toList_repr] at hdigits
    have hnumber := congrArg (Nat.ofDigitChars 10 · 0) hdigits
    simp only [Nat.ofDigitChars_toDigits (by decide : 1 < 10) (by decide)] at hnumber
    omega

/-- The used names that some tries have not come upon. -/
def untried (used : List String) (name : String) (tries : Nat) : List String :=
  used.filter fun file => file ∉ (List.range tries).map (numbered name)

theorem untried_succ (used : List String) (name : String) (tries : Nat) :
    untried used name (tries + 1) =
      (untried used name tries).filter fun file => file ≠ numbered name tries := by
  rw [untried, untried, List.filter_filter]
  congr 1
  funext file
  simp only [List.range_succ, List.map_append, List.mem_append, List.map_cons, List.map_nil,
    List.mem_singleton, not_or, Bool.decide_and, Bool.and_comm]

theorem length_untried_lt {used : List String} {name : String} {tries : Nat}
    (h : numbered name tries ∈ used) :
    (untried used name (tries + 1)).length < (untried used name tries).length := by
  have hfresh : numbered name tries ∉ (List.range tries).map (numbered name) := by
    intro hmem
    obtain ⟨earlier, hearlier, hsame⟩ := List.mem_map.1 hmem
    have hlt := List.mem_range.1 hearlier
    rw [numbered_injective hsame] at hlt
    exact Nat.lt_irrefl _ hlt
  rw [untried_succ]
  refine List.length_filter_lt_length_iff_exists.2 ⟨numbered name tries, ?_, by simp⟩
  exact List.mem_filter.2 ⟨h, decide_eq_true hfresh⟩

/-- The first name from a try on that is not used. -/
def freeName (used : List String) (name : String) (tries : Nat) : String :=
  if numbered name tries ∈ used then freeName used name (tries + 1) else numbered name tries
termination_by (untried used name tries).length
decreasing_by exact length_untried_lt ‹_›

/-- Adds the file of a collection to those of the collections before it. -/
def addFile (indent : Option Nat) (files : Assoc String) (c : Collection) : Assoc String :=
  files.put (freeName files.keys (fileName c.namespaceText) 0) (c.document.jsonText indent)

/-- The files of a bundle: JSON texts under their names. -/
def files (b : Bundle) (indent : Option Nat) : Assoc String :=
  b.collections.foldl (addFile indent) []

end Bundle

end RandomTables.Export
