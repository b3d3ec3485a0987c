-- SUMMARY: Two evaluations put together in the same way, and what they are composed of.
import RandomTables.Proofs.Evaluation.LockstepPatterns

/-!
# Uniform evaluations

`Uniform` is finer than `Composed`: two evaluations are uniform if they are in lockstep, with their
calls answered by either of two answers. They need not have the same steps of the trace open. That
they are composed, that they come to the same under other levels, with more fuel or with another
trace, and that they keep instances are each an induction over the few ways of putting evaluations
together.
-/
namespace RandomTables

/-- Two evaluations put together in the same way, which have their calls answered by either of two
answers and related steps of the trace open. -/
inductive Uniform (nodes : Option Nat → Option Nat → Prop) (a b : Answer) :
    {α : Type} → Eval α → Eval α → Prop where
  | result {α : Type} (r : Except Failure α) :
    Uniform nodes @a @b (fun c => (r, c)) fun c => (r, c)
  | bind {α β : Type} {x y : Eval α} {f g : α → Eval β} (hx : Uniform nodes @a @b x y)
    (hf : ∀ v, Uniform nodes @a @b (f v) (g v)) : Uniform nodes @a @b (x >>= f) (y >>= g)
  /-- What must not be caught is passed on. -/
  | tryCatch {α : Type} {x y : Eval α} {f g : Failure → Eval α} (hx : Uniform nodes @a @b x y)
    (hf : ∀ e, Uniform nodes @a @b (f e) (g e))
    (hpass : ∀ e : Failure, e.Uncaught → f e = throw e ∧ g e = throw e) :
    Uniform nodes @a @b (tryCatch x f) (tryCatch y g)
  | look {α : Type} {f g : Context → Eval α} (hf : ∀ c, f c.sight = f c)
    (hg : ∀ c, g c.sight = g c) (h : ∀ c, Uniform nodes @a @b (f c) (g c)) :
    Uniform nodes @a @b (get >>= f) (get >>= g)
  | draw {α : Type} (d : Draw α) : Uniform nodes @a @b (Eval.draw d) (Eval.draw d)
  | resolving {α : Type} (x : Resolve α) :
    Uniform nodes @a @b (Eval.resolving x) (Eval.resolving x)
  | change {f : Context → Context} (h : OwnChange f)
    (hinstances : ∀ c, (f c).instances = c.instances) :
    Uniform nodes @a @b (modify f) (modify f)
  /-- A remark on a step that is open. -/
  | mark {n m : Option Nat} (h : nodes n m) (f : Option Nat → OpenTrace → OpenTrace) :
    Uniform nodes @a @b (modify fun c => { c with trace := f n c.trace })
      (modify fun c => { c with trace := f m c.trace })
  /-- The roll of what was found is only made where the name is not known. -/
  | recalling (name : String) (found : Except ResolutionFailure Target) :
    Uniform nodes @a @b
      (Eval.recalling name (Eval.liftResolution found >>= fun target => a (.roll target [])))
      (Eval.recalling name (Eval.liftResolution found >>= fun target => b (.roll target [])))
  | descending {α : Type} (limit : Nat) (label : String) {x y : Eval α}
    (h : Uniform nodes @a @b x y) :
    Uniform nodes @a @b (Eval.descending limit label x) (Eval.descending limit label y)
  | withFrame {α : Type} (frame : Frame) {x y : Eval α} (h : Uniform nodes @a @b x y) :
    Uniform nodes @a @b (Eval.withFrame frame x) (Eval.withFrame frame y)
  | guarding {α : Type} (guard : String) {x y : Eval α} (h : Uniform nodes @a @b x y) :
    Uniform nodes @a @b (Eval.guarding guard x) (Eval.guarding guard y)
  | inScope {α : Type} (owner : String) (declarations : Option (Assoc String))
    (collectionId : String) {x y : Eval α} (h : Uniform nodes @a @b x y) :
    Uniform nodes @a @b (Eval.inScope owner declarations collectionId x)
      (Eval.inScope owner declarations collectionId y)
  | traced {α : Type} (step : TraceStep) {f g : Option Nat → Eval α}
    (h : ∀ n m, nodes n m → Uniform nodes @a @b (f n) (g m)) :
    Uniform nodes @a @b (Eval.traced step f) (Eval.traced step g)
  | readShared (name : String) :
    Uniform nodes @a @b (Eval.readShared a name) (Eval.readShared b name)
  | callPattern (text collectionId : String) :
    Uniform nodes @a @b (a (.pattern text collectionId)) (b (.pattern text collectionId))
  | callRoll (target : Target) (excluded : List String) :
    Uniform nodes @a @b (a (.roll target excluded)) (b (.roll target excluded))

/-- Either of two answers. -/
def Answer.either (a b : Answer) (second : Bool) : Answer := fun call =>
  match second with
  | false => a call
  | true => b call

namespace Uniform

variable {nodes : Option Nat → Option Nat → Prop} {a b : Answer} {α β : Type}

/-- Two evaluations in lockstep are uniform. -/
theorem of_lockstep {x : Bool → Eval α}
    (h : Lockstep (fun n => nodes (n false) (n true)) True (Answer.either a b) x) :
    Uniform nodes a b (x false) (x true) := by
  induction h with
  | result r => exact .result r
  | bind _ _ hx hf => exact .bind hx hf
  | tryCatch _ _ hpass hx hf => exact .tryCatch hx hf fun e he => ⟨hpass e he _, hpass e he _⟩
  | look hf _ h =>
      exact .look (fun c => congrFun (hf c) false) (fun c => congrFun (hf c) true) h
  | draw d => exact .draw d
  | resolving x => exact .resolving x
  | change h hinstances _ => exact .change h hinstances
  | describe _ _ _ _ _ => exact .change (.describe _ _ _ _) fun _ => rfl
  | mark h f => exact .mark h f
  | recalling name found => exact .recalling name found
  | descending limit label _ h => exact .descending limit label h
  | withFrame frame _ h => exact .withFrame frame h
  | guarding guard _ h => exact .guarding guard h
  | inScope owner declarations collectionId _ h => exact .inScope owner declarations collectionId h
  | traced step _ h => exact .traced step fun n m hnode => h (fun i => cond i m n) hnode
  | readShared name => exact .readShared name
  | callPattern text collectionId => exact .callPattern text collectionId
  | callRoll target excluded => exact .callRoll target excluded

/-! ## Combinators -/

theorem pure (v : α) : Uniform nodes a b (Pure.pure v) (Pure.pure v) := .result (.ok v)

theorem throw (f : Failure) : Uniform nodes a b (throw f : Eval α) (MonadExcept.throw f) :=
  .result (.error f)

theorem liftResolution (e : Except ResolutionFailure α) :
    Uniform nodes a b (Eval.liftResolution e) (Eval.liftResolution e) :=
  .of_lockstep (.liftResolution e)

theorem capture (name : String) (items : Captured) :
    Uniform nodes a b (modify (Context.capture name items))
      (modify (Context.capture name items)) := .of_lockstep (.capture name items)

theorem setValue {n m : Option Nat} (hnode : nodes n m) (value : Json) :
    Uniform nodes a b (Eval.setValue n value) (Eval.setValue m value) :=
  .mark hnode fun node trace => trace.setValue node value

/-! ## What the evaluator does -/

section

variable (env : Surroundings)

theorem readVariable (name collectionId : String) :
    Uniform nodes a b (Eval.readVariable env a name collectionId)
      (Eval.readVariable env b name collectionId) :=
  .of_lockstep (.readVariable env name collectionId)

theorem readItems (name collectionId : String) :
    Uniform nodes a b (Eval.readItems env a name collectionId)
      (Eval.readItems env b name collectionId) :=
  .of_lockstep (.readItems env name collectionId)

theorem readDotted (name collectionId : String) :
    Uniform nodes a b (Eval.readDotted env a name collectionId)
      (Eval.readDotted env b name collectionId) :=
  .of_lockstep (.readDotted env name collectionId)

theorem eval (strict : Bool) (subject : Option String) (collectionId : String) (e : Expr) :
    Uniform nodes a b (e.eval (Eval.expressionScope env a strict subject collectionId))
      (e.eval (Eval.expressionScope env b strict subject collectionId)) :=
  .of_lockstep (.eval env strict subject collectionId e)

theorem holdsIn (strict : Bool) (subject : Option String) (collectionId condition : String) :
    Uniform nodes a b
      (Expr.holdsIn (Eval.expressionScope env a strict subject collectionId) condition)
      (Expr.holdsIn (Eval.expressionScope env b strict subject collectionId) condition) :=
  .of_lockstep (.holdsIn env strict subject collectionId condition)

theorem renderSets (collectionId tableId : String) (sets : List (String × String)) :
    Uniform nodes a b (Eval.renderSets env a collectionId tableId sets)
      (Eval.renderSets env b collectionId tableId sets) :=
  .of_lockstep (.renderSets env collectionId tableId sets)

theorem roll (target : Target) (excluded : List String) :
    Uniform nodes a b (Eval.roll env a target excluded)
      (Eval.roll env b target excluded) :=
  .of_lockstep (.roll env trivial target excluded)

omit env in
theorem rollTimes (target : Target) (n : Nat) (done : List Outcome) :
    Uniform nodes a b (Eval.rollTimes a target n done) (Eval.rollTimes b target n done) :=
  .of_lockstep (.rollTimes target n done)

theorem rollMany (ref : String) (count : Nat) (collectionId : String) (unique : Bool) :
    Uniform nodes a b (Eval.rollMany env a ref count collectionId unique)
      (Eval.rollMany env b ref count collectionId unique) :=
  .of_lockstep (.rollMany env ref count collectionId unique)

theorem castDice (spec : DiceFormula) :
    Uniform nodes a b (Eval.castDice env spec) (Eval.castDice env spec) :=
  .of_lockstep (.castDice env spec)

theorem diceAgain (spec : DiceFormula) (count : Nat) (done : List String) :
    Uniform nodes a b (Eval.diceAgain env spec count done)
      (Eval.diceAgain env spec count done) := .of_lockstep (.diceAgain env spec count done)

theorem renderAction (collectionId : String) {n m : Option Nat} (hnode : nodes n m)
    (memory : Again) (raw : String) (action : Action) :
    Uniform nodes a b (Eval.renderAction env a collectionId n memory raw action)
      (Eval.renderAction env b collectionId m memory raw action) :=
  .of_lockstep (Lockstep.renderAction env collectionId (n := fun i => cond i m n) hnode memory raw
    action)

theorem renderDirective (collectionId : String) (memory : Again) (d : Directive) :
    Uniform nodes a b (Eval.renderDirective env a collectionId memory d)
      (Eval.renderDirective env b collectionId memory d) :=
  .of_lockstep (.renderDirective env collectionId memory d)

theorem renderSpan (collectionId : String) (memory : Again) (span : Span) :
    Uniform nodes a b (Eval.renderSpan env a collectionId memory span)
      (Eval.renderSpan env b collectionId memory span) :=
  .of_lockstep (.renderSpan env collectionId memory span)

theorem evalDeclaration (collectionId : String) (d : Declaration) :
    Uniform nodes a b (Eval.evalDeclaration env a d collectionId)
      (Eval.evalDeclaration env b d collectionId) :=
  .of_lockstep (.evalDeclaration env collectionId d)

/-- Every call is answered by an evaluation put together from further calls. -/
theorem answerOnce (call : Call α) :
    Uniform nodes a b (Eval.answerOnce env a call) (Eval.answerOnce env b call) :=
  .of_lockstep (.answerOnce env trivial call)

theorem operation (op : Operation α) : Uniform nodes a b (op.run env a) (op.run env b) :=
  .of_lockstep (.operation env trivial op)

end

/-! ## Composition -/

/-- With the same steps open, what is put together in the same way is composed of the same steps. -/
theorem composed {assigns : String → Prop} {x y : Eval α} (h : Uniform Eq a b x y) :
    Composed assigns a b x y := by
  induction h with
  | result r => exact .result r
  | bind _ _ hx hf => exact .bind hx hf
  | tryCatch _ _ _ hx hf => exact .tryCatch hx hf
  | look _ _ _ h => exact .get h
  | draw d => exact .draw d
  | resolving x => exact .resolving x
  | change h _ => exact .change h
  | mark h f =>
      subst h
      exact .change (.retrace _)
  | recalling name found =>
      refine .get fun c => ?_
      split
      · exact .pure _
      · refine .bind (.bind (.liftResolution found) fun target => .callRoll target []) fun _ => ?_
        exact .bind (.change (.instantiate _ _)) fun _ => .pure _
  | descending limit label _ h => exact .descending limit label h
  | withFrame frame _ h => exact .withFrame frame h
  | guarding guard _ h => exact .guarding guard h
  | inScope owner declarations collectionId _ h => exact .inScope owner declarations collectionId h
  | traced step _ h => exact .traced step fun node => h node node rfl
  | readShared name => exact .readShared name
  | callPattern text collectionId => exact .callPattern text collectionId
  | callRoll target excluded => exact .callRoll target excluded

end Uniform

end RandomTables
