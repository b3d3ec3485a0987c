-- SUMMARY: Where a search pattern matches: the preferred end of a match, searching and replacing.
import RandomTables.Regex.Basic
import Std.Data.HashSet

/-!
# Matching

A pattern is matched towards a goal, which is tried at every position where the pattern can end, the
preferred one first, until it succeeds. Alternatives are tried in order, and repetitions take as
much as they can unless they are lazy.

Nothing later in a pattern depends on how an earlier part matched. So a repetition whose goal failed
at a position need not come back to that position, and nested repetitions take polynomial time.
-/
namespace RandomTables.Regex

/-- What is still to be matched: it answers at a position with the end of the match, if there is
one. The state is handed on whether it succeeds or not. -/
abbrev Goal (σ : Type) := Nat → σ → Option Nat × σ

namespace Goal

variable {σ : Type}

/-- Nothing is left to match, and the match may end at a position that passes. -/
def accept (allowed : Nat → Bool) : Goal σ := fun i s => (if allowed i then some i else none, s)

/-- A goal, or another one if it fails. -/
def orElse (first second : Goal σ) : Goal σ := fun i s =>
  match first i s with
  | (some stop, s) => (some stop, s)
  | (none, s) => second i s

/-! ## Repetitions of one character -/

/-- The position behind the longest run of passing places, at most the given number of them. -/
def runEnd (text : Array Place) (test : Place → Bool) : Nat → Nat → Nat
  | 0, i => i
  | most + 1, i =>
    match text[i]? with
    | some p => if test p then runEnd text test most (i + 1) else i
    | none => i

/-- Tries a goal at a distance from a position and at all shorter ones, the longest first. -/
def fromLongest (goal : Goal σ) (start : Nat) : Nat → σ → Option Nat × σ
  | 0, s => goal start s
  | distance + 1, s =>
    match goal (start + (distance + 1)) s with
    | (some stop, s) => (some stop, s)
    | (none, s) => fromLongest goal start distance s

/-- Tries a goal at a position and behind ever longer runs of passing places. -/
def fromShortest (text : Array Place) (test : Place → Bool) (goal : Goal σ) : Nat → Goal σ
  | 0, i, s => goal i s
  | most + 1, i, s =>
    match goal i s with
    | (some stop, s) => (some stop, s)
    | (none, s) =>
      match text[i]? with
      | some p => if test p then fromShortest text test goal most (i + 1) s else (none, s)
      | none => (none, s)

/-- Tries a goal behind runs of passing places. -/
def afterRun (text : Array Place) (test : Place → Bool) (least : Nat) (most : Option Nat)
    (greed : Greed) (goal : Goal σ) : Goal σ := fun i s =>
  let first := runEnd text test least i
  if first < i + least then (none, s)
  else
    let further := (most.getD text.size) - least
    match greed with
    | .least => fromShortest text test goal further first s
    | .most => fromLongest goal first (runEnd text test further first - first) s
    | .all => goal (runEnd text test further first) s

/-! ## Other repetitions -/

/-- The repetitions begun so far, each as its number and its position in one. -/
abbrev Begun := Std.HashSet Nat

/-- Leaves the state of a repetition alone. -/
def outside (goal : Goal σ) : Goal (Begun × σ) := fun i (begun, s) =>
  let (stop, s) := goal i s
  (stop, (begun, s))

/-- Tries a goal behind further repetitions of a body, of which `count` are done. A repetition that
takes nothing, once the least number is reached, is the last. The fuel bounds how many repetitions
are open. -/
def afterBodies (size : Nat) (body : Goal (Begun × σ) → Goal (Begun × σ)) (least : Nat)
    (most : Option Nat) (lazily : Bool) (goal : Goal σ) : Nat → Nat → Goal (Begun × σ)
  | 0, _ => outside goal
  | fuel + 1, count => fun i (begun, s) =>
    let key := count * (size + 1) + i
    if begun.contains key then (none, (begun, s))
    else
      let enough := least ≤ count
      let stop : Goal (Begun × σ) := fun i s => if enough then outside goal i s else (none, s)
      let next := if most.isNone then min (count + 1) least else count + 1
      let further : Goal (Begun × σ) := fun i s =>
        if most.any (· ≤ count) then (none, s)
        else
          body (fun j s =>
            if j == i && enough then stop i s
            else afterBodies size body least most lazily goal fuel next j s) i s
      (if lazily then orElse stop further else orElse further stop) i (begun.insert key, s)

/-- Repeats a body as often as possible, each time up to its preferred end. -/
def exhaust (body : Nat → Option Nat) (least : Nat) (most : Option Nat) :
    Nat → Nat → Nat → Option Nat
  | 0, _, i => some i
  | fuel + 1, count, i =>
    if most.any (· ≤ count) then some i
    else
      match body i with
      | none => if least ≤ count then some i else none
      | some j =>
        if j == i && least ≤ count then some i else exhaust body least most fuel (count + 1) j

end Goal

/-! ## Patterns -/

/-- The test that a pattern makes if it always takes one character. -/
def singleTest? : Regex → Option (Place → Bool)
  | .any => some fun p => p.letter != '\n'
  | .set negated items => some fun p => setHolds items p != negated
  | .group body => singleTest? body
  | .sequence [part] => singleTest? part
  | _ => none

mutual

/-- Matches a pattern at a position and then a goal. -/
def match? (text : Array Place) : Regex → {σ : Type} → Goal σ → Goal σ
  | .any, _, goal, i, s =>
    match text[i]? with
    | some p => if p.letter != '\n' then goal (i + 1) s else (none, s)
    | none => (none, s)
  | .set negated items, _, goal, i, s =>
    match text[i]? with
    | some p => if setHolds items p != negated then goal (i + 1) s else (none, s)
    | none => (none, s)
  | .anchor a, _, goal, i, s => if a.holds text i then goal i s else (none, s)
  | .sequence parts, _, goal, i, s => matchAll text parts goal i s
  | .choice options, _, goal, i, s => matchAny text options goal i s
  | .group body, _, goal, i, s => match? text body goal i s
  | .repeated least most greed body, _, goal, i, s =>
    match singleTest? body with
    | some test => Goal.afterRun text test least most greed goal i s
    | none =>
      let fuel := least + text.size + 1
      match greed with
      | .all =>
        let step := fun i => (match? text body (Goal.accept fun _ => true) i ()).1
        match Goal.exhaust step least most fuel 0 i with
        | some j => goal j s
        | none => (none, s)
      | _ =>
        let (stop, (_, s)) :=
          Goal.afterBodies text.size (match? text body) least most (greed == .least) goal fuel 0 i
            (∅, s)
        (stop, s)

/-- Matches parts one after the other and then a goal. -/
def matchAll (text : Array Place) : List Regex → {σ : Type} → Goal σ → Goal σ
  | [], _, goal, i, s => goal i s
  | part :: rest, _, goal, i, s => match? text part (matchAll text rest goal) i s

/-- Matches the first option that leads to a goal. -/
def matchAny (text : Array Place) : List Regex → {σ : Type} → Goal σ → Goal σ
  | [], _, _, _, s => (none, s)
  | option :: rest, _, goal, i, s =>
    match match? text option goal i s with
    | (some stop, s) => (some stop, s)
    | (none, s) => matchAny text rest goal i s

end

/-- The preferred end, among those that pass, of a match from a position. -/
def endFrom (r : Regex) (text : Array Place) (allowed : Nat → Bool) (i : Nat) : Option Nat :=
  (match? text r (Goal.accept allowed) i ()).1

/-- Whether a pattern matches anywhere in a text. -/
def search (ignoreCase : Bool) (r : Regex) (text : List Char) : Bool :=
  let places := (text.map (if ignoreCase then Place.inAnyCase else Place.exact)).toArray
  (List.range (places.size + 1)).any fun i => (r.endFrom places (fun _ => true) i).isSome

/-- The first match at or after a position: its start and end. A match that ends at `barred` is
passed over. -/
def firstFrom (r : Regex) (text : Array Place) (barred : Option Nat) :
    Nat → Nat → Option (Nat × Nat)
  | 0, _ => none
  | fuel + 1, i =>
    if text.size < i then none
    else
      match r.endFrom text (fun j => some j != barred) i with
      | some j => some (i, j)
      | none => firstFrom r text barred fuel (i + 1)

/-- The letters from one position up to another. -/
def lettersOf (text : Array Place) (start stop : Nat) : List Char :=
  (text.extract start stop).toList.map (·.letter)

/-- The text with every match replaced. An empty match is replaced too, but the match after it
starts beyond it or is not empty. -/
def replaceFrom (r : Regex) (text : Array Place) (value : List Char) :
    Nat → Nat → Option Nat → List Char
  | 0, start, _ => lettersOf text start text.size
  | fuel + 1, start, barred =>
    match firstFrom r text barred (text.size + 1) start with
    | none => lettersOf text start text.size
    | some (i, j) =>
      lettersOf text start i ++ value ++
        replaceFrom r text value fuel j (if i = j then some j else none)

/-- The text with every match replaced by a value. -/
def replace (r : Regex) (value text : List Char) : List Char :=
  let places := (text.map Place.exact).toArray
  replaceFrom r places value (2 * places.size + 2) 0 none

end RandomTables.Regex
