-- SUMMARY: How evaluations are put together from steps and calls, whatever answers the calls.
import RandomTables.Evaluation.Answer
import RandomTables.Proofs.Evaluation.Monad
import RandomTables.Proofs.Evaluation.Simulation
import RandomTables.Proofs.Expr.Reading

/-!
# Composed evaluations

Whatever the evaluator does is put together from few steps: it draws, resolves tables, changes what
it keeps, opens and closes, reads a shared variable, or calls for a pattern or a roll. `Composed`
relates two evaluations that are put together in the same way and have their calls answered
differently. What holds of every step and is kept when steps are put together then holds of the
whole evaluator, by one induction that need not look at directives, tables or expressions again.
-/
namespace RandomTables

/-- A change of what an evaluation keeps for itself. -/
inductive OwnChange : (Context → Context) → Prop where
  | record (level : LogLevel) (logger : Logger) (message : String) :
    OwnChange (Context.record level logger message)
  | retrace (f : OpenTrace → OpenTrace) : OwnChange fun c => { c with trace := f c.trace }
  | publish (name : String) (sets : Assoc Content) : OwnChange (Context.publish name sets)
  | capture (name : String) (items : Captured) : OwnChange (Context.capture name items)
  | describe (tableName tableId rolledValue description : String) :
    OwnChange (Context.describe tableName tableId rolledValue description)
  | instantiate (name text : String) :
    OwnChange fun c => { c with instances := c.instances.put name text }

/-- Assigns a shared variable. -/
def Eval.assigning (target : String) (value : Content) : Eval Unit := do
  let shared ← liftDeclaration ((← get).shared.assign target value)
  modify fun c => { c with shared }

/-- Two evaluations put together in the same way, which have their calls answered by either of two
answers and assign only variables that they may. -/
inductive Composed (assigns : String → Prop) (a b : Answer) : {α : Type} → Eval α → Eval α → Prop
    where
  | result {α : Type} (r : Except Failure α) :
    Composed assigns @a @b (fun c => (r, c)) fun c => (r, c)
  /-- What follows an evaluation depends on its result, be it a failure. -/
  | ran {α β : Type} {x y : Eval α} {f g : Except Failure α → Eval β}
    (hx : Composed assigns @a @b x y) (hf : ∀ r, Composed assigns @a @b (f r) (g r)) :
    Composed assigns @a @b (fun c => f (x c).1 (x c).2) fun c => g (y c).1 (y c).2
  | get {α : Type} {f g : Context → Eval α} (h : ∀ c, Composed assigns @a @b (f c) (g c)) :
    Composed assigns @a @b (get >>= f) (get >>= g)
  | draw {α : Type} (d : Draw α) : Composed assigns @a @b (Eval.draw d) (Eval.draw d)
  | resolving {α : Type} (x : Resolve α) :
    Composed assigns @a @b (Eval.resolving x) (Eval.resolving x)
  | change {f : Context → Context} (h : OwnChange f) :
    Composed assigns @a @b (modify f) (modify f)
  | assigning {target : String} (h : assigns target) (value : Content) :
    Composed assigns @a @b (Eval.assigning target value) (Eval.assigning target value)
  | descending {α : Type} (limit : Nat) (label : String) {x y : Eval α}
    (h : Composed assigns @a @b x y) :
    Composed assigns @a @b (Eval.descending limit label x) (Eval.descending limit label y)
  | withFrame {α : Type} (frame : Frame) {x y : Eval α} (h : Composed assigns @a @b x y) :
    Composed assigns @a @b (Eval.withFrame frame x) (Eval.withFrame frame y)
  | guarding {α : Type} (guard : String) {x y : Eval α} (h : Composed assigns @a @b x y) :
    Composed assigns @a @b (Eval.guarding guard x) (Eval.guarding guard y)
  | inScope {α : Type} (owner : String) (declarations : Option (Assoc String))
    (collectionId : String) {x y : Eval α} (h : Composed assigns @a @b x y) :
    Composed assigns @a @b (Eval.inScope owner declarations collectionId x)
      (Eval.inScope owner declarations collectionId y)
  | traced {α : Type} (step : TraceStep) {f g : Option Nat → Eval α}
    (h : ∀ node, Composed assigns @a @b (f node) (g node)) :
    Composed assigns @a @b (Eval.traced step f) (Eval.traced step g)
  | tracedApart {α : Type} (step : TraceStep) {f g : Option Nat → Eval α}
    (h : ∀ node, Composed assigns @a @b (f node) (g node)) :
    Composed assigns @a @b (Eval.tracedApart step f) (Eval.tracedApart step g)
  | readShared (name : String) :
    Composed assigns @a @b (Eval.readShared a name) (Eval.readShared b name)
  | callPattern (text collectionId : String) :
    Composed assigns @a @b (a (.pattern text collectionId)) (b (.pattern text collectionId))
  | callRoll (target : Target) (excluded : List String) :
    Composed assigns @a @b (a (.roll target excluded)) (b (.roll target excluded))

namespace Composed

variable {assigns : String → Prop} {a b : Answer} {α β : Type}

/-! ## Combinators -/

theorem pure (v : α) : Composed assigns a b (Pure.pure v) (Pure.pure v) := .result (.ok v)

theorem throw (f : Failure) : Composed assigns a b (throw f : Eval α) (MonadExcept.throw f) :=
  .result (.error f)

theorem bind {x y : Eval α} {f g : α → Eval β} (hx : Composed assigns a b x y)
    (hf : ∀ v, Composed assigns a b (f v) (g v)) : Composed assigns a b (x >>= f) (y >>= g) := by
  have hcont : ∀ r, Composed assigns a b (fun c => ExceptT.bindCont f r c)
      (fun c => ExceptT.bindCont g r c) := by
    intro r
    cases r with
    | ok v => exact hf v
    | error e => exact .throw e
  exact .ran hx hcont

theorem tryCatch {x y : Eval α} {f g : Failure → Eval α} (hx : Composed assigns a b x y)
    (hf : ∀ e, Composed assigns a b (f e) (g e)) :
    Composed assigns a b (tryCatch x f) (tryCatch y g) := by
  have hhandled : ∀ r : Except Failure α, Composed assigns a b
      (MonadExcept.tryCatch (fun c => (r, c) : Eval α) f)
      (MonadExcept.tryCatch (fun c => (r, c) : Eval α) g) := by
    intro r
    cases r with
    | ok v => exact .pure v
    | error e => exact hf e
  have happly : ∀ (z : Eval α) (h : Failure → Eval α), MonadExcept.tryCatch z h =
      fun c => (MonadExcept.tryCatch (fun d => ((z c).1, d) : Eval α) h : Eval α) (z c).2 :=
    fun _ _ => rfl
  rw [happly, happly]
  exact .ran hx hhandled

theorem liftResolution (e : Except ResolutionFailure α) :
    Composed assigns a b (Eval.liftResolution e) (Eval.liftResolution e) := by
  cases e with
  | ok v => exact .pure v
  | error f => exact .throw _

end Composed

/-! ## Evaluations in lockstep

A family of evaluations is in lockstep if all of them are put together in the same way, look at a
context only where something is open, shared, captured or published, roll a named instance only
where its name is not known, and let pass what must not be caught. They have their calls answered
differently, and need not have the same steps of the trace open. Some may record descriptions.

The evaluator is followed step by step once, for families. Of two evaluations in lockstep, whatever
holds of every step holds of the whole. Of one evaluation for every answer there is, being in
lockstep says which calls it makes. -/

universe u

/-- What evaluations look at by themselves: what is open, shared, captured and published. -/
def Context.sight (c : Context) : Context where
  frames := c.frames
  guards := c.guards
  shared := c.shared
  captures := c.captures
  placeholders := c.placeholders

/-- The text under a name, and whether it was known there. An unknown one is that of a roll. -/
def Eval.recalling (name : String) (body : Eval Outcome) : Eval (String × Bool) := do
  match (← get).instances.get? name with
  | some text => return (text, true)
  | none =>
    let outcome ← body
    modify fun c => { c with instances := c.instances.put name outcome.text }
    return (outcome.text, false)

/-! ## The course of an entry -/

namespace Eval

/-- The sets and the text of a drawn entry, evaluated and published. -/
def evalEntry (env : Surroundings) (answer : Answer) (s : Selection) (table : SimpleTable) :
    Eval (Assoc Content × String) := do
  note { kind := .entrySelect, label := "Selected: " ++ s.entry.idText, raw := table.id
         value := Json.ofOption s.entry.value, metadata := s.fields }
  let (sets, text) ← withFrame ⟨table, s.collectionId, s.entry.id, s.entry.description⟩ do
    let sets ← renderSets env answer s.collectionId table.id
      (Assoc.putAll (table.defaultSets.getD []) s.entry.sets)
    if !sets.isEmpty then modify (Context.publish table.id sets)
    let text ← answer (.pattern (s.entry.value.getD "") s.collectionId)
    return (sets, text)
  if !sets.has "value" then modify (Context.publish table.id [("value", .text text)])
  return (sets, text)

/-- The outcome of a drawn entry with its sets, its text and its description. -/
def entryOutcome (s : Selection) (table : SimpleTable) (sets : Assoc Content) (text : String)
    (description : Option String) : Outcome where
  text
  tableId := table.id
  collectionId := s.collectionId
  resultType := SimpleTable.firstText s.entry.resultType table.resultType
  assets := s.entry.assets
  sets
  entryId := s.entry.id
  key := some s.key
  description

/-- The description of an entry is evaluated last. -/
theorem outcomeOf_eq (env : Surroundings) (answer : Answer) (s : Selection) (table : SimpleTable) :
    outcomeOf env answer s table = do
      let (sets, text) ← evalEntry env answer s table
      let description ← evalDescription answer table s text
      return entryOutcome s table sets text description := by
  simp only [outcomeOf, evalEntry, bind_assoc]
  refine bind_congr fun _ => bind_congr fun settled => ?_
  by_cases h : (!settled.1.has "value") = true
  · simp only [if_pos h, bind_assoc, pure_bind]
    rfl
  · simp only [if_neg h, pure_bind]
    rfl

end Eval

/-! ## Lockstep -/

/-- A family of evaluations put together in the same way, each of which has its calls answered by
its own answer and its own steps of the trace open. -/
inductive Lockstep {ι : Type u} (nodes : (ι → Option Nat) → Prop) (tells : Prop) (a : ι → Answer) :
    {α : Type} → (ι → Eval α) → Prop where
  | result {α : Type} (r : Except Failure α) : Lockstep nodes tells a fun _ c => (r, c)
  | bind {α β : Type} {x : ι → Eval α} {f : α → ι → Eval β} (hx : Lockstep nodes tells a x)
    (hf : ∀ v, Lockstep nodes tells a (f v)) :
    Lockstep nodes tells a fun i => x i >>= fun v => f v i
  /-- What must not be caught is passed on. -/
  | tryCatch {α : Type} {x : ι → Eval α} {f : Failure → ι → Eval α} (hx : Lockstep nodes tells a x)
    (hf : ∀ e, Lockstep nodes tells a (f e))
    (hpass : ∀ e : Failure, e.Uncaught → ∀ i, f e i = throw e) :
    Lockstep nodes tells a fun i => tryCatch (x i) fun e => f e i
  | look {α : Type} {f : Context → ι → Eval α} (hf : ∀ c, f c.sight = f c)
    (h : ∀ c, Lockstep nodes tells a (f c)) : Lockstep nodes tells a fun i => get >>= fun c => f c i
  | draw {α : Type} (d : Draw α) : Lockstep nodes tells a fun _ => Eval.draw d
  | resolving {α : Type} (x : Resolve α) : Lockstep nodes tells a fun _ => Eval.resolving x
  | change {f : Context → Context} (h : OwnChange f)
    (hinstances : ∀ c, (f c).instances = c.instances)
    (hdescriptions : ∀ c, (f c).descriptions = c.descriptions) :
    Lockstep nodes tells a fun _ => modify f
  | describe (h : tells) (tableName tableId rolledValue description : String) :
    Lockstep nodes tells a fun _ =>
      modify (Context.describe tableName tableId rolledValue description)
  /-- A remark on a step that is open. -/
  | mark {n : ι → Option Nat} (h : nodes n) (f : Option Nat → OpenTrace → OpenTrace) :
    Lockstep nodes tells a fun i => modify fun c => { c with trace := f (n i) c.trace }
  /-- The roll of what was found is only made where the name is not known. -/
  | recalling (name : String) (found : Except ResolutionFailure Target) :
    Lockstep nodes tells a fun i =>
      Eval.recalling name (Eval.liftResolution found >>= fun target => a i (.roll target []))
  | descending {α : Type} (limit : Nat) (label : String) {x : ι → Eval α}
    (h : Lockstep nodes tells a x) :
    Lockstep nodes tells a fun i => Eval.descending limit label (x i)
  | withFrame {α : Type} (frame : Frame) {x : ι → Eval α} (h : Lockstep nodes tells a x) :
    Lockstep nodes tells a fun i => Eval.withFrame frame (x i)
  | guarding {α : Type} (guard : String) {x : ι → Eval α} (h : Lockstep nodes tells a x) :
    Lockstep nodes tells a fun i => Eval.guarding guard (x i)
  | inScope {α : Type} (owner : String) (declarations : Option (Assoc String))
    (collectionId : String) {x : ι → Eval α} (h : Lockstep nodes tells a x) :
    Lockstep nodes tells a fun i => Eval.inScope owner declarations collectionId (x i)
  | traced {α : Type} (step : TraceStep) {f : ι → Option Nat → Eval α}
    (h : ∀ n : ι → Option Nat, nodes n → Lockstep nodes tells a fun i => f i (n i)) :
    Lockstep nodes tells a fun i => Eval.traced step (f i)
  | readShared (name : String) : Lockstep nodes tells a fun i => Eval.readShared (a i) name
  | callPattern (text collectionId : String) :
    Lockstep nodes tells a fun i => a i (.pattern text collectionId)
  | callRoll (target : Target) (excluded : List String) :
    Lockstep nodes tells a fun i => a i (.roll target excluded)

namespace Lockstep

variable {ι : Type u} {nodes : (ι → Option Nat) → Prop} {tells : Prop} {a : ι → Answer}
  {α β : Type}

/-! ## Combinators -/

theorem pure (v : α) : Lockstep nodes tells a fun _ => Pure.pure v := .result (.ok v)

theorem throw (f : Failure) : Lockstep nodes tells a fun _ => (throw f : Eval α) :=
  .result (.error f)

theorem map {x : ι → Eval α} {f : α → β} (hx : Lockstep nodes tells a x) :
    Lockstep nodes tells a fun i => f <$> x i := by
  simp only [map_eq_pure_bind]
  exact .bind hx fun v => .pure (f v)

theorem ite {p : Prop} [Decidable p] {x y : ι → Eval α} (hx : Lockstep nodes tells a x)
    (hy : Lockstep nodes tells a y) : Lockstep nodes tells a fun i => if p then x i else y i := by
  by_cases h : p
  · simpa only [if_pos h] using hx
  · simpa only [if_neg h] using hy

theorem lift (e : Except Failure α) : Lockstep nodes tells a fun _ => Eval.lift e := by
  cases e with
  | ok v => exact .pure v
  | error f => exact .throw f

theorem lift_expr (e : Except Failure α) :
    Lockstep nodes tells a fun _ => (Expr.lift e : Eval α) := by
  cases e with
  | ok v => exact .pure v
  | error f => exact .throw f

theorem liftResolution (e : Except ResolutionFailure α) :
    Lockstep nodes tells a fun _ => Eval.liftResolution e := by
  cases e with
  | ok v => exact .pure v
  | error f => exact .throw _

theorem log (level : LogLevel) (message : String) :
    Lockstep nodes tells a fun _ => Eval.log level message :=
  .change (.record level .evaluator message) (fun _ => rfl) fun _ => rfl

theorem note (step : TraceStep) : Lockstep nodes tells a fun _ => Eval.note step :=
  .change (.retrace (·.note step)) (fun _ => rfl) fun _ => rfl

theorem publish (name : String) (sets : Assoc Content) :
    Lockstep nodes tells a fun _ => modify (Context.publish name sets) :=
  .change (.publish name sets) (fun _ => rfl) fun _ => rfl

theorem capture (name : String) (items : Captured) :
    Lockstep nodes tells a fun _ => modify (Context.capture name items) := by
  have hkept : ∀ c : Context, (c.capture name items).instances = c.instances ∧
      (c.capture name items).descriptions = c.descriptions := by
    intro c
    unfold Context.capture
    dsimp only
    split <;> exact ⟨rfl, rfl⟩
  exact .change (.capture name items) (fun c => (hkept c).1) fun c => (hkept c).2

section

variable {n : ι → Option Nat} (hnode : nodes n)
include hnode

theorem annotate (details : List (String × Json)) :
    Lockstep nodes tells a fun i => Eval.annotate (n i) details :=
  .mark hnode fun node trace => trace.annotate node details

theorem setValue (value : Json) : Lockstep nodes tells a fun i => Eval.setValue (n i) value :=
  .mark hnode fun node trace => trace.setValue node value

theorem setError (error : String) : Lockstep nodes tells a fun i => Eval.setError (n i) error :=
  .mark hnode fun node trace => trace.setError node error

end

/-! ## Reading variables -/

section

variable (env : Surroundings)

theorem readVariable (name collectionId : String) :
    Lockstep nodes tells a fun i => Eval.readVariable env (a i) name collectionId := by
  refine .look (fun _ => rfl) fun c => ?_
  cases c.captures.get? name with
  | some items => exact .pure _
  | none =>
      refine .bind (.readShared name) fun found => ?_
      cases found with
      | some value => exact .pure _
      | none =>
          cases Eval.staticText? env name collectionId with
          | some text => exact .pure _
          | none => exact .throw _

theorem readImported (importAlias name collectionId : String) :
    Lockstep nodes tells a fun _ => Eval.readImported env importAlias name collectionId := by
  refine .bind (.liftResolution _) fun found => ?_
  cases found with
  | some text => exact .pure _
  | none => exact .throw _

theorem readItems (name collectionId : String) :
    Lockstep nodes tells a fun i => Eval.readItems env (a i) name collectionId := by
  refine .look (fun _ => rfl) fun c => ?_
  cases c.captures.get? name with
  | some items => exact .pure _
  | none =>
      refine .bind (.readShared name) fun found => ?_
      cases found with
      | some value => exact .pure _
      | none =>
          cases Eval.staticText? env name collectionId with
          | some text => exact .pure _
          | none => exact .throw _

theorem sortOfVariable (name collectionId : String) :
    Lockstep nodes tells a fun _ => Eval.sortOfVariable env name collectionId :=
  .look (fun _ => rfl) fun _ => .ite (.pure _) (.ite (.pure _) (.ite (.pure _) (.pure _)))

theorem nthItem (items : Captured) (index : Int) (name : String) :
    Lockstep nodes tells a fun _ => Eval.nthItem items index name := by
  unfold Eval.nthItem
  dsimp only
  split
  · exact .pure _
  · exact .bind (.log _ _) fun _ => .pure _

theorem readSelf (property : Option String) :
    Lockstep nodes tells a fun i => Eval.readSelf env (a i) property := by
  refine .look (fun _ => rfl) fun c => ?_
  cases c.frames.head? with
  | none => exact .pure _
  | some frame => exact .ite (.descending _ _ (.callPattern _ _)) (.pure _)

theorem readPlaceholder (name : String) (property : Option String) :
    Lockstep nodes tells a fun i => Eval.readPlaceholder env (a i) name property := by
  refine .ite (.readSelf env property) (.look (fun _ => rfl) fun c => ?_)
  cases c.placeholder? name property with
  | some text => exact .pure _
  | none => exact .bind (.log _ _) fun _ => .pure _

theorem readDotted (name collectionId : String) :
    Lockstep nodes tells a fun i => Eval.readDotted env (a i) name collectionId := by
  refine .ite (.look (fun _ => rfl) fun c => .ite ?_ ?_) (.readVariable env _ _)
  · exact .bind (.readItems env _ _) fun items => .ite (.pure _) (.pure _)
  · exact .readImported env _ _ _

theorem orEmpty {x : ι → Eval String} (h : Lockstep nodes tells a x) :
    Lockstep nodes tells a fun i => Eval.orEmpty (x i) := by
  refine .tryCatch h (fun f => ?_) fun f hf i => ?_
  · split
    · exact .pure _
    · exact .throw _
  · rcases hf with rfl | ⟨_, rfl⟩ <;> rfl

/-! ## Expressions -/

section

variable (strict : Bool) (subject : Option String) (collectionId : String)

mutual

/-- The value of an expression is composed of what its scope reads. -/
theorem eval : ∀ e : Expr, Lockstep nodes tells a fun i =>
    e.eval (Eval.expressionScope env (a i) strict subject collectionId)
  | .number _ _ => by
      simp only [Expr.eval]
      exact .pure _
  | .text _ _ => by
      simp only [Expr.eval]
      exact .pure _
  | .variable name _ => by
      simp only [Expr.eval]
      have hread : Lockstep nodes tells a fun i =>
          Eval.readDotted env (a i) name collectionId := .readDotted env name collectionId
      refine .ite (.pure (Value.str (subject.getD ""))) (.bind ?_ fun _ => .pure _)
      cases strict with
      | true => exact hread
      | false => exact .orEmpty hread
  | .placeholder name property _ => by
      simp only [Expr.eval]
      exact .bind (.readPlaceholder env name property) fun _ => .pure _
  | .unary op operand _ => by
      simp only [Expr.eval]
      exact .bind (eval operand) fun _ => .lift_expr _
  | .binary op left right => by
      by_cases hand : op = .and
      · subst hand
        simp only [Expr.eval]
        exact .bind (eval left) fun v => .ite (.bind (eval right) fun _ => .pure _) (.pure _)
      by_cases hor : op = .or
      · subst hor
        simp only [Expr.eval]
        exact .bind (eval left) fun v => .ite (.pure _) (.bind (eval right) fun _ => .pure _)
      simp only [Expr.eval_binary hand hor]
      exact .bind (eval left) fun _ => .bind (eval right) fun _ => .lift_expr _
  | .call function arguments _ => by
      simp only [Expr.eval]
      exact .bind (evalNumbers arguments) fun _ => .bind (.lift_expr _) fun _ => .pure _

theorem evalNumbers : ∀ arguments : List Expr, Lockstep nodes tells a fun i =>
    Expr.evalNumbers (Eval.expressionScope env (a i) strict subject collectionId) arguments
  | [] => by
      simp only [Expr.evalNumbers]
      exact .pure _
  | e :: rest => by
      simp only [Expr.evalNumbers]
      refine .bind (eval e) fun _ => .bind (.lift_expr _) fun _ => ?_
      exact .bind (evalNumbers rest) fun _ => .pure _

end

theorem holdsIn (condition : String) : Lockstep nodes tells a fun i =>
    Expr.holdsIn (Eval.expressionScope env (a i) strict subject collectionId) condition :=
  .bind (.lift_expr _) fun e => .bind (.eval env strict subject collectionId e) fun _ => .pure _

end

/-! ## Rolls -/

theorem onlyTable (pattern collectionId : String) :
    Lockstep nodes tells a fun _ => Eval.onlyTable env pattern collectionId := by
  refine .bind (.lift _) fun only => ?_
  split
  · refine .bind (.liftResolution _) fun found => ?_
    split
    · exact .pure _
    · exact .pure _
  · exact .pure _

theorem renderSet (pattern collectionId : String) :
    Lockstep nodes tells a fun i => Eval.renderSet env (a i) pattern collectionId := by
  refine .bind (.onlyTable env pattern collectionId) fun found => ?_
  cases found with
  | some target => exact .bind (.callRoll _ _) fun _ => .pure _
  | none => exact .bind (.callPattern _ _) fun _ => .pure _

theorem renderSets (collectionId tableId : String) (sets : List (String × String)) :
    Lockstep nodes tells a fun i => Eval.renderSets env (a i) collectionId tableId sets := by
  induction sets with
  | nil => exact .pure _
  | cons set rest ih =>
      obtain ⟨key, pattern⟩ := set
      simp only [Eval.renderSets]
      refine .look (fun _ => rfl) fun c => ?_
      refine .ite (.bind (.pure _) fun _ => .bind ih fun _ => .pure _) (.ite ?_ ?_)
      · exact .bind (.log _ _) fun _ => .bind (.pure _) fun _ => .bind ih fun _ => .pure _
      · refine .bind (.guarding _ (.renderSet env pattern collectionId)) fun _ => ?_
        exact .bind ih fun _ => .pure _

theorem evalEntry (s : Selection) (table : SimpleTable) :
    Lockstep nodes tells a fun i => Eval.evalEntry env (a i) s table := by
  refine .bind (.note _) fun _ => .bind (.withFrame _ ?_) fun settled => ?_
  · refine .bind (.renderSets env _ _ _) fun sets => .ite ?_ ?_
    · exact .bind (.publish _ _) fun _ => .bind (.callPattern _ _) fun _ => .pure _
    · exact .bind (.callPattern _ _) fun _ => .pure _
  · exact .ite (.bind (.publish _ _) fun _ => .pure _) (.pure _)

section

variable (htells : tells)
include htells

omit env in
theorem evalDescription (table : SimpleTable) (s : Selection) (text : String) :
    Lockstep nodes tells a fun i => Eval.evalDescription (a i) table s text := by
  refine .ite (.pure _) (.bind (.callPattern _ _) fun _ => ?_)
  exact .bind (.describe htells _ _ _ _) fun _ => .pure _

theorem outcomeOf (s : Selection) (table : SimpleTable) :
    Lockstep nodes tells a fun i => Eval.outcomeOf env (a i) s table := by
  simp only [Eval.outcomeOf_eq]
  exact .bind (.evalEntry env s table) fun _ => .bind (.evalDescription htells table s _) fun _ =>
    .pure _

theorem rollFrom (t : Table) (collectionId : String) (excluded : List String) :
    Lockstep nodes tells a fun i => Eval.rollFrom env (a i) t collectionId excluded := by
  cases t with
  | simple t =>
      refine .bind (.resolving _) fun table => .bind (.draw _) fun s => ?_
      exact .outcomeOf env htells s table
  | composite t =>
      refine .bind (.draw _) fun drawn => ?_
      refine .bind (.note _) fun _ => .bind (.liftResolution _) fun target => ?_
      exact .bind (.callRoll target excluded) fun _ => .pure _
  | collection t =>
      refine .bind (.resolving _) fun members => .bind (.note _) fun _ => ?_
      refine .bind (.draw _) fun s => ?_
      dsimp only
      cases members.find? fun m => m.1.id = s.tableId && m.2 = s.collectionId with
      | some found => exact .bind (.outcomeOf env htells s _) fun _ => .pure _
      | none => exact .throw _

omit htells in
theorem atLevel (id owner : String) (step : TraceStep) (shared : Option (Assoc String))
    (collectionId : String) {body : ι → Option Nat → Eval α}
    (h : ∀ n : ι → Option Nat, nodes n → Lockstep nodes tells a fun i => body i (n i)) :
    Lockstep nodes tells a fun i =>
      Eval.atLevel env id owner step shared collectionId (body i) :=
  .descending _ _ (.traced _ fun n hnode => .inScope _ _ _ (h n hnode))

theorem roll (target : Target) (excluded : List String) :
    Lockstep nodes tells a fun i => Eval.roll env (a i) target excluded := by
  obtain ⟨definition, collectionId⟩ := target
  cases definition with
  | table t =>
      refine .atLevel env _ _ _ _ _ fun n hnode => ?_
      refine .bind (.rollFrom env htells t collectionId excluded) fun _ => ?_
      exact .bind (.setValue hnode _) fun _ => .bind (.annotate hnode _) fun _ => .pure _
  | template t =>
      refine .atLevel env _ _ _ _ _ fun n hnode => ?_
      exact .bind (.callPattern _ _) fun _ => .bind (.setValue hnode _) fun _ => .pure _

end

/-! ## Repeated rolls -/

omit env in
theorem unlessExhausted {x : ι → Eval Outcome} (h : Lockstep nodes tells a x) :
    Lockstep nodes tells a fun i => Eval.unlessExhausted (x i) := by
  refine .tryCatch (.map h) (fun f => ?_) fun f hf i => ?_
  · split
    · exact .ite (.pure _) (.throw _)
    · exact .throw _
  · rcases hf with rfl | ⟨_, rfl⟩ <;> rfl

omit env in
theorem rollTimes (target : Target) (n : Nat) (done : List Outcome) :
    Lockstep nodes tells a fun i => Eval.rollTimes (a i) target n done := by
  induction n generalizing done with
  | zero => exact .pure _
  | succ n ih => exact .bind (.callRoll _ _) fun outcome => ih (outcome :: done)

theorem rollUnique (target : Target) (ref : String) (count n : Nat) (used : List String)
    (done : List Outcome) :
    Lockstep nodes tells a fun i => Eval.rollUnique env (a i) target ref count n used done := by
  induction n generalizing used done with
  | zero => exact .pure _
  | succ n ih =>
      simp only [Eval.rollUnique]
      refine .bind (.unlessExhausted (.callRoll _ _)) fun drawn => ?_
      cases drawn with
      | some o => exact ih _ _
      | none =>
          dsimp only
          cases env.config.uniqueOverflow with
          | stop => exact .bind (.log _ _) fun _ => .pure _
          | error => exact .throw _
          | cycle =>
              refine .ite (.throw _) (.bind (.unlessExhausted (.callRoll _ _)) fun drawn => ?_)
              cases drawn with
              | some o => exact ih _ _
              | none => exact .throw _

theorem rollMany (ref : String) (count : Nat) (collectionId : String) (unique : Bool) :
    Lockstep nodes tells a fun i => Eval.rollMany env (a i) ref count collectionId unique := by
  refine .bind (.liftResolution _) fun target => ?_
  obtain ⟨definition, owner⟩ := target
  cases definition with
  | template t => exact .rollTimes _ count []
  | table t =>
      cases unique with
      | true => exact .rollUnique env _ ref count count [] []
      | false => exact .rollTimes _ count []

theorem castDice (spec : DiceFormula) : Lockstep nodes tells a fun _ => Eval.castDice env spec :=
  .bind (.draw _) fun _ => .lift _

theorem evalCount (count : Multiplicity) (collectionId : String) :
    Lockstep nodes tells a fun i => Eval.evalCount env (a i) count collectionId := by
  cases count with
  | literal n => exact .pure _
  | dice spec => exact .bind (.castDice env spec) fun _ => .bind (.note _) fun _ => .pure _
  | «variable» name =>
      refine .bind (.readVariable env name collectionId) fun text => ?_
      dsimp only
      split
      · exact .bind (.log _ _) fun _ => .pure _
      · split
        · exact .pure _
        · exact .bind (.log _ _) fun _ => .pure _
        · exact .throw _

end

end Lockstep

end RandomTables
