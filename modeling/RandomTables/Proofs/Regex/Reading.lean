-- SUMMARY: Reading a search pattern breaks down in nothing but the size of a bound.
import RandomTables.Proofs.Evaluation.Monad
import RandomTables.Regex.Parser

/-!
# Refusals of search patterns

A search pattern is refused for a fault at a position or because a bound breaks the reading down.
The fuel of the reading never shows: where it ends, a fault is found.
-/
namespace RandomTables

/-! ## Breakdowns -/

/-- A breakdown of arithmetic. -/
def Failure.Breaks (f : Failure) : Prop := ∃ fault, f = .fault fault

/-- A computation that breaks down, if it fails. -/
abbrev Breaks {α : Type} (x : Except Failure α) : Prop := FailsOnly Failure.Breaks x

theorem Breaks.error {α : Type} {fault : Fault} :
    Breaks (.error (.fault fault) : Except Failure α) := FailsOnly.error ⟨fault, rfl⟩

theorem Number.breaks_readDigits (digits : List Char) : Breaks (readDigits digits) :=
  .ite Breaks.error .ok

namespace Regex

/-- A reading whose breakdowns are those of arithmetic. -/
abbrev Ends {α : Type} (x : Reading α) : Prop :=
  FailsOnly (fun e => ∀ f, e = .breakdown f → f.Breaks) x

section

variable {α : Type}

theorem ends_refuse {cause : FaultCause} {position : Nat} :
    Ends (refuse cause position : Reading α) := .error fun _ h => nomatch h

namespace Input

theorem ends_checked (input : Input) : Ends input.checked := .ite ends_refuse .ok

theorem ends_next? (input : Input) : Ends input.next? := by
  unfold next?
  split
  · exact .ok
  · exact .bind (ends_checked _) fun _ => .ok

theorem ends_take? (input : Input) (c : Char) : Ends (input.take? c) := by
  unfold take?
  split
  · exact .ok
  · exact .ite (.map (ends_checked _)) .ok

end Input

theorem ends_takeWhileAtMost (p : Char → Bool) (n : Nat) (input : Input) :
    Ends (takeWhileAtMost p n input) := by
  induction n generalizing input with
  | zero => exact .ok
  | succ n ih =>
      unfold takeWhileAtMost
      split
      · exact .ok
      · refine .ite (.bind (Input.ends_checked _) fun input => ?_) .ok
        exact .bind (ih input) fun _ => .ok

/-! ## Escapes -/

theorem ends_hexEscape (s : Symbol) (width : Nat) (input : Input) :
    Ends (hexEscape s width input) :=
  .bind (ends_takeWhileAtMost _ _ _) fun _ => .ite ends_refuse (.ite ends_refuse .ok)

theorem ends_octalChar (s : Symbol) (digits : List Char) (after : Input) :
    Ends (octalChar s digits after) := .ite .ok ends_refuse

theorem ends_plainEscape (s : Symbol) (input : Input) : Ends (plainEscape s input) :=
  .ite (ends_hexEscape ..) (.ite (ends_hexEscape ..) (.ite (ends_hexEscape ..)
    (.ite ends_refuse (.ite ends_refuse .ok))))

theorem ends_digitEscape (s : Symbol) (input : Input) : Ends (digitEscape s input) := by
  apply FailsOnly.bind (ends_takeWhileAtMost _ _ _)
  intro second
  apply FailsOnly.bind (ends_takeWhileAtMost _ _ _)
  intro third
  exact .ite (ends_octalChar ..) (.ite ends_refuse ends_refuse)

theorem ends_escapePattern (s : Symbol) (input : Input) : Ends (escapePattern s input) := by
  unfold escapePattern
  split
  · exact .ok
  · exact .ok
  · exact .ok
  · dsimp only
    refine .ite (.bind (ends_takeWhileAtMost _ _ _) fun _ => ?_) (.ite ?_ ?_)
    · exact .bind (ends_octalChar _ _ _) fun _ => .ok
    · exact .bind (ends_digitEscape s input) fun _ => .ok
    · exact .bind (ends_plainEscape s input) fun _ => .ok

theorem ends_escapeItem (s : Symbol) (input : Input) : Ends (escapeItem s input) := by
  unfold escapeItem
  split
  · exact .ok
  · exact .ok
  · dsimp only
    refine .ite .ok (.ite (.bind (ends_takeWhileAtMost _ _ _) fun _ => ?_) ?_)
    · exact .bind (ends_octalChar _ _ _) fun _ => .ok
    · exact .bind (ends_plainEscape s input) fun _ => .ok

/-! ## Sets and repetitions -/

theorem ends_setItem (s : Symbol) (input : Input) : Ends (setItem s input) :=
  .ite (ends_escapeItem s input) .ok

theorem ends_rangeItem (s t : Symbol) (low high : SetItem) (stop : Nat) :
    Ends (rangeItem s t low high stop) := by
  unfold rangeItem
  split
  · exact .ite ends_refuse .ok
  · exact ends_refuse

theorem ends_setItems (start fuel : Nat) (items : List SetItem) (input : Input) :
    Ends (setItems start fuel items input) := by
  induction fuel generalizing items input with
  | zero => exact ends_refuse
  | succ fuel ih =>
      apply FailsOnly.bind (Input.ends_next? input)
      intro next
      split
      · exact ends_refuse
      · refine .ite .ok ?_
        apply FailsOnly.bind (ends_setItem _ _)
        intro low
        apply FailsOnly.bind (Input.ends_take? _ _)
        intro dash
        split
        · exact ih _ _
        · apply FailsOnly.bind (Input.ends_next? _)
          intro next
          split
          · exact ends_refuse
          · refine .ite .ok ?_
            apply FailsOnly.bind (ends_setItem _ _)
            intro high
            exact .bind (ends_rangeItem ..) fun _ => ih _ _

theorem ends_boundValue (digits : List Char) : Ends (boundValue digits) := by
  have hread := Number.breaks_readDigits digits
  unfold boundValue
  split
  · refine .ite (.error ?_) .ok
    rintro _ ⟨⟩
    exact ⟨.overflow, rfl⟩
  · rename_i f hf
    refine .error ?_
    rintro _ ⟨⟩
    exact hread.failure f hf

theorem ends_bounds (start : Nat) (input : Input) : Ends (bounds start input) := by
  refine .ite .ok ?_
  refine .bind (ends_takeWhileAtMost _ _ _) fun low => .bind ?_ fun high => ?_
  · refine .bind (Input.ends_take? _ _) fun comma => ?_
    split
    · exact ends_takeWhileAtMost _ _ _
    · exact .ok
  · refine .bind (Input.ends_take? _ _) fun after => ?_
    split
    · exact .ok
    · refine .bind (ends_boundValue _) fun least => .ite .ok ?_
      exact .bind (ends_boundValue _) fun most => .ite ends_refuse .ok

theorem ends_wrapLast (position least : Nat) (most : Option Nat) (parts : List Regex)
    (input : Input) : Ends (wrapLast position least most parts input) := by
  unfold wrapLast
  split
  · exact ends_refuse
  · exact ends_refuse
  · exact ends_refuse
  · apply FailsOnly.bind (Input.ends_take? _ _)
    intro lazily
    split
    · exact .ok
    · apply FailsOnly.bind (Input.ends_take? _ _)
      intro possessive
      split
      · exact .ok
      · exact .ok

/-! ## Groups -/

mutual

theorem ends_alternatives : ∀ (fuel : Nat) (input : Input), Ends (alternatives fuel input)
  | 0, _ => ends_refuse
  | fuel + 1, input => by
      rw [alternatives]
      apply FailsOnly.bind (ends_parts fuel [] input)
      intro first
      exact .bind (ends_furtherOptions fuel first.2) fun _ => .ok

theorem ends_furtherOptions : ∀ (fuel : Nat) (input : Input), Ends (furtherOptions fuel input)
  | 0, _ => ends_refuse
  | fuel + 1, input => by
      rw [furtherOptions]
      apply FailsOnly.bind (Input.ends_take? _ _)
      intro bar
      split
      · exact .ok
      · apply FailsOnly.bind (ends_parts fuel [] _)
        intro option
        exact .bind (ends_furtherOptions fuel option.2) fun _ => .ok

theorem ends_parts : ∀ (fuel : Nat) (done : List Regex) (input : Input),
    Ends (parts fuel done input)
  | 0, _, _ => ends_refuse
  | fuel + 1, done, input => by
      rw [parts]
      split
      · exact .ok
      · refine .ite .ok (.bind (Input.ends_next? input) fun next => ?_)
        split
        · exact .ok
        · have hwrap : ∀ least most (s : Symbol) (input : Input),
              Ends (do
                let (done, input) ← wrapLast s.position least most done input
                parts fuel done input) := fun least most s input =>
            .bind (ends_wrapLast ..) fun wrapped => ends_parts fuel wrapped.1 wrapped.2
          refine .ite (.bind (ends_escapePattern _ _) fun _ => ends_parts fuel _ _) ?_
          refine .ite (.bind (Input.ends_take? _ _) fun _ => ?_) ?_
          · exact .bind (ends_setItems ..) fun _ => ends_parts fuel _ _
          refine .ite (hwrap ..) (.ite (hwrap ..) (.ite (hwrap ..) (.ite ?_ ?_)))
          · apply FailsOnly.bind (ends_bounds _ _)
            intro found
            split
            · exact ends_parts fuel _ _
            · exact hwrap ..
          · refine .ite (ends_parts ..) (.ite (ends_parts ..) (.ite (ends_parts ..) (.ite ?_ ?_)))
            · exact .bind (ends_readGroup fuel _ _) fun _ => ends_parts fuel _ _
            · exact ends_parts fuel _ _

theorem ends_readGroup : ∀ (fuel start : Nat) (input : Input), Ends (readGroup fuel start input)
  | 0, _, _ => ends_refuse
  | fuel + 1, start, input => by
      rw [readGroup]
      refine .bind ?_ fun opened => .bind (ends_alternatives fuel opened.2) fun body => ?_
      · refine .bind (Input.ends_take? _ _) fun mark => ?_
        split
        · exact .ok
        · refine .bind (Input.ends_next? _) fun next => ?_
          split
          · exact ends_refuse
          · exact .ite .ok ends_refuse
      · refine .bind (Input.ends_take? _ _) fun closed => ?_
        split
        · exact ends_refuse
        · exact .ite .ok .ok

end

end

theorem ends_parse (pattern : List Char) : Ends (parse pattern) := by
  refine .bind (Input.ends_checked _) fun input => .bind (ends_alternatives _ _) ?_
  rintro ⟨parts, input⟩
  dsimp only
  split
  · exact .ok
  · exact ends_refuse

end Regex

end RandomTables
