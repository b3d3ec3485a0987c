-- SUMMARY: The stack of open steps, and relations between two traces that all operations keep.
import RandomTables.Evaluation.Monad

/-!
# Traces side by side

What an evaluation does to its trace it does with a few operations, none of which looks at what was
recorded before. A relation between two traces that each of these operations keeps is therefore
kept by every evaluation.
-/
namespace RandomTables

/-! ## The stack of open steps

Only beginning and closing a step touch the stack. A step that is closed while it is the innermost
open one leaves the stack as it was before the step began. -/

namespace OpenTrace

variable (b : OpenTrace)

@[simp]
theorem stack_note (step : TraceStep) : (b.note step).stack = b.stack := by
  unfold note
  split <;> rfl

@[simp]
theorem stack_annotate (id : Option Nat) (details : List (String × Json)) :
    (b.annotate id details).stack = b.stack := by
  cases id <;> rfl

@[simp]
theorem stack_setValue (id : Option Nat) (value : Json) :
    (b.setValue id value).stack = b.stack := by
  cases id <;> rfl

@[simp]
theorem stack_setError (id : Option Nat) (error : String) :
    (b.setError id error).stack = b.stack := by
  cases id with
  | none => rfl
  | some id =>
      unfold setError
      dsimp only
      split <;> rfl

/-! ## Beginning and closing -/

theorem stack_enter (step : TraceStep) :
    (b.enter step).2.stack = (b.enter step).1.toList ++ b.stack := by
  unfold enter
  split <;> rfl

theorem stack_enterApart (step : TraceStep) :
    (b.enterApart step).2.stack = (b.enterApart step).1.toList ++ b.stack := by
  unfold enterApart
  split <;> rfl

theorem stack_leave {b : OpenTrace} {id : Option Nat} {outer : List Nat}
    (h : b.stack = id.toList ++ outer) : (b.leave id).stack = outer := by
  cases id with
  | none => exact h
  | some id =>
      have hhead : b.stack.head? = some id := by rw [h]; rfl
      unfold leave
      dsimp only
      rw [if_pos hhead, h]
      rfl

end OpenTrace

theorem Eval.stack_closeStep {α : Type} {b : OpenTrace} {id : Option Nat} {outer : List Nat}
    (result : Except Failure α) (h : b.stack = id.toList ++ outer) :
    (Eval.closeStep id result b).stack = outer := by
  cases result with
  | ok a => exact OpenTrace.stack_leave h
  | error f =>
      cases f with
      | error e => exact OpenTrace.stack_leave ((b.stack_setError id e.message).trans h)
      | fault e => exact OpenTrace.stack_leave h
      | outOfFuel => exact OpenTrace.stack_leave h

/-! ## Changes of steps -/

/-- A change of a step that leaves it the step of what it was. -/
def TraceStep.Retells (f : TraceStep → TraceStep) : Prop :=
  ∀ s, (f s).kind = s.kind ∧ (f s).raw = s.raw

namespace OpenTrace

/-- Changes a step, if there is one. -/
def change (b : OpenTrace) (id : Option Nat) (f : TraceStep → TraceStep) : OpenTrace :=
  match id with
  | some id => b.modify id f
  | none => b

/-! ## Traces that record nothing -/

section

variable (b : OpenTrace)

@[simp]
theorem enabled_note (step : TraceStep) : (b.note step).enabled = b.enabled := by
  unfold note
  split <;> rfl

@[simp]
theorem enabled_change (id : Option Nat) (f : TraceStep → TraceStep) :
    (b.change id f).enabled = b.enabled := by
  cases id <;> rfl

@[simp]
theorem enabled_enter (step : TraceStep) : (b.enter step).2.enabled = b.enabled := by
  unfold enter
  split <;> rfl

@[simp]
theorem enabled_enterApart (step : TraceStep) : (b.enterApart step).2.enabled = b.enabled := by
  unfold enterApart
  split <;> rfl

@[simp]
theorem enabled_leave (id : Option Nat) : (b.leave id).enabled = b.enabled := by
  cases id with
  | none => rfl
  | some id =>
      unfold leave
      dsimp only
      split <;> rfl

variable {b}

theorem isSome_conclude (h : b.enabled = true) (value : Json) (error : Option String) :
    (b.conclude value error).2.isSome := by
  simp [conclude, modify, h]

theorem conclude_eq_none (h : b.enabled = false) (value : Json) (error : Option String) :
    (b.conclude value error).2 = none := by
  simp [conclude, modify, h]

end

end OpenTrace

/-- Two traces in place of each other. -/
structure Tracing where
  traces : OpenTrace → OpenTrace → Prop
  /-- The steps that may be changed and closed, one in each trace. -/
  steps : Option Nat → Option Nat → Prop
  note : ∀ {b b' : OpenTrace} {step : TraceStep}, step.kind ≠ .conditional → traces b b' →
    traces (b.note step) (b'.note step)
  change : ∀ {b b' : OpenTrace} {n m : Option Nat} {f : TraceStep → TraceStep},
    TraceStep.Retells f → steps n m → traces b b' → traces (b.change n f) (b'.change m f)
  enter : ∀ {b b' : OpenTrace} {step : TraceStep}, step.kind ≠ .conditional → traces b b' →
    steps (b.enter step).1 (b'.enter step).1 ∧ traces (b.enter step).2 (b'.enter step).2
  enterApart : ∀ {b b' : OpenTrace} (step : TraceStep), traces b b' →
    steps (b.enterApart step).1 (b'.enterApart step).1 ∧
      traces (b.enterApart step).2 (b'.enterApart step).2
  /-- Closing a step leads back to the steps that were open around it. -/
  leave : ∀ {outer outer' b b' : OpenTrace} {n m : Option Nat}, traces outer outer' → steps n m →
    b.stack = n.toList ++ outer.stack → traces b b' → traces (b.leave n) (b'.leave m)

namespace Tracing

/-- The same trace. -/
def same : Tracing where
  traces b b' := b' = b
  steps n m := m = n
  note _ h := by rw [h]
  change _ hn h := by rw [hn, h]
  enter _ h := by rw [h]; exact ⟨rfl, rfl⟩
  enterApart _ h := by rw [h]; exact ⟨rfl, rfl⟩
  leave _ hn _ h := by rw [hn, h]

/-- A trace beside one that records nothing. -/
def silenced : Tracing where
  traces b b' := b.enabled = true ∧ b'.enabled = false
  steps _ _ := True
  note _ h := by simpa using h
  change _ _ h := by simpa using h
  enter _ h := by simpa using h
  enterApart _ h := by simpa using h
  leave _ _ _ h := by simpa using h

variable (T : Tracing) {b b' : OpenTrace} {n m : Option Nat}

theorem annotate (hn : T.steps n m) (h : T.traces b b') (details : List (String × Json)) :
    T.traces (b.annotate n details) (b'.annotate m details) :=
  T.change (f := fun s => { s with metadata := Assoc.putAll s.metadata details })
    (fun _ => ⟨rfl, rfl⟩) hn h

theorem setValue (hn : T.steps n m) (h : T.traces b b') (value : Json) :
    T.traces (b.setValue n value) (b'.setValue m value) :=
  T.change (f := fun s => { s with value }) (fun _ => ⟨rfl, rfl⟩) hn h

theorem setError (hn : T.steps n m) (h : T.traces b b') (error : String) :
    T.traces (b.setError n error) (b'.setError m error) := by
  by_cases hempty : error.isEmpty
  · have hnone (b : OpenTrace) (id : Option Nat) : b.setError id error = b := by
      cases id with
      | none => rfl
      | some id => exact if_pos hempty
    rwa [hnone, hnone]
  · have hchange (b : OpenTrace) (id : Option Nat) :
        b.setError id error = b.change id fun s => { s with error := some error } := by
      cases id with
      | none => rfl
      | some id => exact if_neg hempty
    rw [hchange, hchange]
    exact T.change (fun _ => ⟨rfl, rfl⟩) hn h

theorem closeStep {α : Type} {outer outer' : OpenTrace} (houter : T.traces outer outer')
    (hn : T.steps n m) (hstack : b.stack = n.toList ++ outer.stack) (h : T.traces b b')
    (result : Except Failure α) :
    T.traces (Eval.closeStep n result b) (Eval.closeStep m result b') := by
  cases result with
  | ok a => exact T.leave houter hn hstack h
  | error f =>
      cases f with
      | error e =>
          exact T.leave houter hn ((b.stack_setError n e.message).trans hstack)
            (T.setError hn h e.message)
      | fault e => exact T.leave houter hn hstack h
      | outOfFuel => exact T.leave houter hn hstack h

end Tracing

end RandomTables
