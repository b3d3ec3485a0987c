-- SUMMARY: Answers to calls, operations and whole requests are composed evaluations.
import RandomTables.Proofs.Engine.Completing
import RandomTables.Proofs.Evaluation.Uniform

/-!
# Composed requests

Answers and operations are composed as they are uniform. A request is generated from uniform
evaluations: the pattern or roll that it asks for, and its conditionals, which alone may assign
variables. It goes on with the segments that were finished before a failure, so that it is followed
here step by step.
-/
namespace RandomTables

/-- A computation that cannot fail, as an evaluation. -/
def Eval.surely {α : Type} (m : StateM Context α) : Eval α := fun c => (.ok (m c).1, (m c).2)

theorem Eval.surely_inj {α : Type} {m n : StateM Context α} {c : Context}
    (h : surely m c = surely n c) : m c = n c := by
  obtain ⟨hvalue, hcontext⟩ := Prod.mk.inj h
  exact Prod.ext (Except.ok.inj hvalue) hcontext

/-- Two evaluations generated in the same way from uniform ones, and from assignments of variables
that may be assigned. -/
inductive Generating (assigns : String → Prop) (a b : Answer) :
    {α : Type} → Eval α → Eval α → Prop where
  | uniform {α : Type} {x y : Eval α} (h : Uniform Eq @a @b x y) : Generating assigns @a @b x y
  /-- What follows an evaluation depends on its result, be it a failure. -/
  | ran {α β : Type} {x y : Eval α} {f g : Except Failure α → Eval β}
    (hx : Generating assigns @a @b x y) (hf : ∀ r, Generating assigns @a @b (f r) (g r)) :
    Generating assigns @a @b (fun c => f (x c).1 (x c).2) fun c => g (y c).1 (y c).2
  | assigning {target : String} (h : assigns target) (value : Content) :
    Generating assigns @a @b (Eval.assigning target value) (Eval.assigning target value)
  | tracedApart {α : Type} (step : TraceStep) {f g : Option Nat → Eval α}
    (h : ∀ node, Generating assigns @a @b (f node) (g node)) :
    Generating assigns @a @b (Eval.tracedApart step f) (Eval.tracedApart step g)

namespace Generating

variable {assigns : String → Prop} {a b : Answer} {α β : Type}

theorem pure (v : α) : Generating assigns a b (Pure.pure v) (Pure.pure v) := .uniform (.pure v)

theorem bind {x y : Eval α} {f g : α → Eval β} (hx : Generating assigns a b x y)
    (hf : ∀ v, Generating assigns a b (f v) (g v)) :
    Generating assigns a b (x >>= f) (y >>= g) := by
  have hcont : ∀ r, Generating assigns a b (fun c => ExceptT.bindCont f r c)
      (fun c => ExceptT.bindCont g r c) := by
    intro r
    cases r with
    | ok v => exact hf v
    | error e => exact .uniform (.throw e)
  exact .ran hx hcont

theorem surely_pure (v : α) :
    Generating assigns a b (Eval.surely (Pure.pure v)) (Eval.surely (Pure.pure v)) := .pure v

theorem surely_bind {m n : StateM Context α} {f g : α → StateM Context β}
    (h : Generating assigns a b (Eval.surely m) (Eval.surely n))
    (hf : ∀ v, Generating assigns a b (Eval.surely (f v)) (Eval.surely (g v))) :
    Generating assigns a b (Eval.surely (m >>= f)) (Eval.surely (n >>= g)) := .bind h hf

/-- Going on with the result of an evaluation, be it a failure. -/
theorem surely_run {x y : Eval α} {f g : Except Failure α → StateM Context β}
    (hx : Generating assigns a b x y)
    (hf : ∀ r, Generating assigns a b (Eval.surely (f r)) (Eval.surely (g r))) :
    Generating assigns a b (Eval.surely (x.run >>= f)) (Eval.surely (y.run >>= g)) := .ran hx hf

/-! ## Requests -/

section

variable (env : Surroundings)

theorem renderPieces (collectionId : String) (memory : Again) (pieces : List Piece) :
    Generating assigns a b (Eval.surely (Eval.renderPieces env a collectionId memory pieces))
      (Eval.surely (Eval.renderPieces env b collectionId memory pieces)) := by
  induction pieces generalizing memory with
  | nil => exact .surely_pure _
  | cons piece rest ih =>
      cases piece with
      | literal chars start => exact .surely_bind (ih memory) fun _ => .surely_pure _
      | directive span =>
          refine .surely_run (.uniform (.renderSpan env collectionId memory span)) fun r => ?_
          cases r with
          | error f => exact .surely_pure _
          | ok output => exact .surely_bind (ih output.2) fun _ => .surely_pure _

theorem perform (request : Request) :
    Generating assigns a b (Eval.surely (request.perform env a))
      (Eval.surely (request.perform env b)) := by
  have houtcome : ∀ ref wantsTemplate, Generating assigns a b
      (Request.outcome env a ref wantsTemplate) (Request.outcome env b ref wantsTemplate) :=
    fun _ _ => .uniform (.bind (.liftResolution _) fun _ => .callRoll _ _)
  cases request with
  | roll ref => exact .surely_run (houtcome ref false) fun _ => .surely_pure _
  | template ref => exact .surely_run (houtcome ref true) fun _ => .surely_pure _
  | pattern text => exact .surely_bind (.renderPieces env _ _ _) fun _ => .surely_pure _

theorem changeOf {c : Conditional} (h : c.action = .setVariable → assigns (c.target.getD ""))
    (value text : String) :
    Generating assigns a b (Eval.changeOf c value text) (Eval.changeOf c value text) := by
  unfold Eval.changeOf
  dsimp only
  split
  · exact .pure _
  · exact .pure _
  · split
    · exact .pure _
    · unfold Eval.replaceMatches
      split
      · exact .pure _
      · exact .uniform (.bind (.change (.record _ _ _) fun _ => rfl) fun _ => .pure _)
      · exact .uniform (.throw _)
  · rename_i haction
    split
    · have hassign := (Generating.assigning (a := a) (b := b) (h haction) (.text value)).bind
        fun _ => Generating.pure Change.keep
      simpa only [Eval.assigning, bind_assoc] using hassign
    · exact .pure _

theorem evalConditional {c : Conditional}
    (h : c.action = .setVariable → assigns (c.target.getD "")) (collectionId text : String) :
    Generating assigns a b (Eval.evalConditional env a collectionId c text)
      (Eval.evalConditional env b collectionId c text) := by
  refine .tracedApart _ fun node => .bind ?_ fun holds => ?_
  · exact .uniform (.holdsIn env false (some text) collectionId c.condition)
  dsimp only
  split
  · refine .bind (.uniform (.callPattern _ _)) fun value => .bind ?_ fun _ => ?_
    · rw [map_eq_pure_bind]
      exact .bind (changeOf h value text) fun _ => .pure _
    · exact .uniform (.bind (.setValue rfl _) fun _ => .pure _)
  · exact .uniform (.bind (.pure _) fun _ => .bind (.setValue rfl _) fun _ => .pure _)

theorem amendFrom {conditionals : List Conditional}
    (h : ∀ c ∈ conditionals, c.action = .setVariable → assigns (c.target.getD ""))
    (collectionId : String) (r : Rendered) (matched : Nat) :
    Generating assigns a b (Eval.surely (Eval.amendFrom env a collectionId conditionals r matched))
      (Eval.surely (Eval.amendFrom env b collectionId conditionals r matched)) := by
  induction conditionals generalizing r matched with
  | nil => exact .surely_pure _
  | cons c rest ih =>
      rw [List.forall_mem_cons] at h
      refine .surely_run (.evalConditional env h.1 collectionId r.text) fun change => ?_
      rcases change with f | _ | change
      · exact .surely_pure _
      · exact ih h.2 _ _
      · exact ih h.2 _ _

theorem completeIn (request : Request) {d : Document}
    (h : ∀ c ∈ d.conditionals, c.action = .setVariable → assigns (c.target.getD "")) :
    Generating assigns a b (Eval.surely (request.completeIn env a d))
      (Eval.surely (request.completeIn env b d)) := by
  refine .surely_bind (.perform env request) fun performed => ?_
  rcases performed with ⟨segments, f | o⟩
  · exact .surely_pure _
  · refine .surely_bind (.surely_bind (.amendFrom env h _ _ 0) fun amended => ?_) fun amended => ?_
    · rcases amended with ⟨r, f | matched⟩
      · exact .surely_pure _
      · refine .surely_bind (.uniform ?_) fun _ => .surely_pure _
        exact .change (.record _ _ _) fun _ => rfl
    · rcases amended with ⟨r, _ | f⟩
      · exact .surely_pure _
      · exact .surely_pure _

end

/-- What is generated is composed. -/
theorem composed {x y : Eval α} (h : Generating assigns a b x y) : Composed assigns a b x y := by
  induction h with
  | uniform h => exact h.composed
  | ran _ _ hx hf => exact .ran hx hf
  | assigning h value => exact .assigning h value
  | tracedApart step _ h => exact .tracedApart step h

end Generating

/-! ## Answers, operations and requests -/

namespace Composed

variable {assigns : String → Prop} {a b : Answer} {α : Type}

/-- Every call is answered by an evaluation composed of further calls. -/
theorem answerOnce (env : Surroundings) (call : Call α) :
    Composed assigns a b (Eval.answerOnce env a call) (Eval.answerOnce env b call) :=
  (Uniform.answerOnce env call).composed

theorem operation (env : Surroundings) (op : Operation α) :
    Composed assigns a b (op.run env a) (op.run env b) := (Uniform.operation env op).composed

section

variable (env : Surroundings)

theorem roll (target : Target) (excluded : List String) :
    Composed assigns a b (Eval.roll env a target excluded) (Eval.roll env b target excluded) :=
  (Uniform.roll env target excluded).composed

theorem renderSets (collectionId tableId : String) (sets : List (String × String)) :
    Composed assigns a b (Eval.renderSets env a collectionId tableId sets)
      (Eval.renderSets env b collectionId tableId sets) :=
  (Uniform.renderSets env collectionId tableId sets).composed

theorem perform (request : Request) :
    Composed assigns a b (Eval.surely (request.perform env a))
      (Eval.surely (request.perform env b)) := (Generating.perform env request).composed

theorem completeIn (request : Request) {d : Document}
    (h : ∀ c ∈ d.conditionals, c.action = .setVariable → assigns (c.target.getD "")) :
    Composed assigns a b (Eval.surely (request.completeIn env a d))
      (Eval.surely (request.completeIn env b d)) := (Generating.completeIn env request h).composed

end

end Composed

end RandomTables
